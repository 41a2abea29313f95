import ObjCSword.Laws.Links

/-!
# Links with encoded parameters

A link gives some of the five parameters, in any order, each as often as it likes, its text encoded;
between them stand entries of other names. Such a link is read back (`parameters_read`): by
induction on its parameters from the last one, a variable holds the encoded text that is given last,
and decoding gives the text.
-/

namespace ObjCSword

open NSString Lib.Percent SwordUtil

/-! ## Parameters -/

/-- A parameter in a query: one of the five, its text encoded, or another. -/
inductive QueryParameter where
  | known (p : LinkParameter) (text : String) (spelling : List Char)
      (encoded : Encoded (fun c => unreserved c = true) text.toList spelling)
  | other (entry : List Char) (single : '&' ∉ entry)
      (foreign : ∀ p : LinkParameter, entryName entry ≠ p.name.toList)

namespace QueryParameter

/-- The parameter as it stands in the query. -/
def entry : QueryParameter → List Char
  | known p _ spelling _ => p.name.toList ++ '=' :: spelling
  | other entry _ _ => entry

theorem ampersand_not_mem_entry (q : QueryParameter) : '&' ∉ q.entry := by
  cases q with
  | known p text spelling encoded =>
    have hspelling : '&' ∉ spelling :=
      not_mem_of_encoded (by decide) (by decide) (by decide) encoded
    simp only [entry, List.mem_append, List.mem_cons, not_or]
    exact ⟨p.ampersand_not_mem_name, by decide, hspelling⟩
  | other entry single _ => exact single

/-- What the parameter gives for one of the five. -/
def textFor (p : LinkParameter) : QueryParameter → Option String
  | known q text _ _ => if p = q then some text else none
  | other _ _ _ => none

end QueryParameter

/-- The text that is given last for a parameter. -/
def givenText (p : LinkParameter) (params : List QueryParameter) : Option String :=
  params.reverse.findSome? (QueryParameter.textFor p)

theorem givenText_append_singleton (p : LinkParameter) (params : List QueryParameter)
    (q : QueryParameter) :
    givenText p (params ++ [q]) = (q.textFor p).or (givenText p params) := by
  rw [givenText, List.reverse_append, List.reverse_singleton, List.singleton_append,
    List.findSome?_cons]
  cases q.textFor p <;> rfl

namespace QueryParameter

/-- An entry of one of the five begins as this one and carries its text. -/
theorem decode_entry {p : LinkParameter} {q : QueryParameter} {text : String}
    (h : q.textFor p = some text) :
    hasPrefix (.ofList q.entry) p.lead = true ∧
      stringByReplacingPercentEscapes (valueOf (.ofList q.entry)) = some text := by
  cases q with
  | other => cases h
  | known r given spelling encoded =>
    by_cases heq : p = r
    · rw [textFor, if_pos heq] at h
      obtain rfl := Option.some.inj h
      subst heq
      have hspelling : '=' ∉ spelling :=
        not_mem_of_encoded (by decide) (by decide) (by decide) encoded
      have hlead : p.lead.toList <+: p.name.toList ++ '=' :: spelling :=
        ⟨spelling, by rw [p.toList_lead, List.append_assoc]; rfl⟩
      refine ⟨?_, ?_⟩
      · rw [hasPrefix, String.toList_ofList, entry, List.isPrefixOf_iff_prefix]
        exact hlead
      · rw [entry, valueOf_ofList p.equals_not_mem_name hspelling,
          stringByReplacingPercentEscapes, String.toList_ofList,
          decode_of_encoded (by decide) encoded, Option.map_some, String.ofList_toList]
    · rw [textFor, if_neg heq] at h
      cases h

/-- Any other entry begins otherwise. -/
theorem hasPrefix_entry_of_none {p : LinkParameter} {q : QueryParameter}
    (h : q.textFor p = none) : ¬ hasPrefix (.ofList q.entry) p.lead = true := by
  intro hlead
  have hname := entryName_of_hasPrefix hlead
  rw [String.toList_ofList] at hname
  cases q with
  | other _ _ foreign => exact foreign p hname
  | known r text spelling _ =>
    rw [entry, entryName_append r.equals_not_mem_name, String.toList_inj] at hname
    rw [textFor, if_pos (LinkParameter.name_injective hname).symm] at h
    cases h

end QueryParameter

/-- **The loop reads what is given**: by induction on the parameters, the last one first. -/
theorem decodedText_params (p : LinkParameter) (params : List QueryParameter) :
    p.decodedText (params.map fun q => String.ofList q.entry) =
      some ((givenText p params).getD p.initial) := by
  induction params using List.reverseRecOn with
  | nil => exact stringByReplacingPercentEscapes_of_not_mem p.percent_not_mem_initial
  | append_singleton params q ih =>
    rw [List.map_append, List.map_singleton, LinkParameter.decodedText_append_singleton,
      givenText_append_singleton]
    cases htext : q.textFor p with
    | some text =>
      obtain ⟨hlead, hdecode⟩ := QueryParameter.decode_entry htext
      rw [if_pos hlead, hdecode, Option.some_or, Option.getD_some]
    | none => rw [if_neg (QueryParameter.hasPrefix_entry_of_none htext), ih, Option.none_or]

/-- The query with the given parameters. -/
def queryOf (params : List QueryParameter) : String :=
  .ofList (List.intercalate ['&'] (params.map QueryParameter.entry))

theorem queryEntries_queryOf {params : List QueryParameter} (h : params ≠ []) :
    queryEntries (some (queryOf params)) = params.map fun q => String.ofList q.entry := by
  rw [queryEntries, Option.map_some, Option.getD_some, queryOf]
  exact components_intercalate h fun q _ => q.ampersand_not_mem_entry

/-- A link with the given parameters; one without any may have no query. -/
structure ParameterLink (aURL : NSURL) (params : List QueryParameter) : Prop
    extends PassageLink aURL where
  query : aURL.query = some (queryOf params) ∨ params = [] ∧ aURL.query = none

theorem decodedText_link {aURL : NSURL} {params : List QueryParameter}
    (link : ParameterLink aURL params) (p : LinkParameter) :
    p.decodedText (queryEntries aURL.query) = some ((givenText p params).getD p.initial) := by
  rcases link.query with hquery | ⟨hnil, hquery⟩
  · rw [hquery]
    by_cases hparams : params = []
    · -- the empty query has one entry, the empty one
      have hentries : queryEntries (some (queryOf [])) = [] ++ [""] := by decide
      have hlead : ¬ hasPrefix "" p.lead = true := by cases p <;> decide
      rw [hparams, hentries, LinkParameter.decodedText_append_singleton, if_neg hlead]
      exact decodedText_params p []
    · rw [queryEntries_queryOf hparams]
      exact decodedText_params p params
  · rw [hnil, hquery]
    exact decodedText_params p []

/-- **A link is read back**: whichever of the five parameters it gives, in whichever order and
encoding and with whatever between them, the dictionary maps each to the text given last, or to its
initial text, and holds nothing else. -/
theorem parameters_read (nil : NilStore) {aURL : NSURL} {params : List QueryParameter}
    (link : ParameterLink aURL params) :
    ∃ ret, dictionaryFromUrl nil aURL = some ret ∧
      (∀ p : LinkParameter,
        AList.lookup p.key ret = some ((givenText p params).getD p.initial)) ∧
      ∀ key, (∀ p : LinkParameter, key ≠ p.key) → AList.lookup key ret = none := by
  have htexts := decodedText_link link
  have hsome : ∀ p : LinkParameter, (p.decodedText (queryEntries aURL.query)).isSome := by
    intro p
    rw [htexts p]
    rfl
  obtain ⟨ret, hret⟩ := dictionaryFromUrl_isSome nil link.toPassageLink hsome
  obtain ⟨hkeys, hother⟩ := lookup_dictionaryFromUrl link.toPassageLink hret
  exact ⟨ret, hret, fun p => (hkeys p).trans (htexts p), hother⟩

/-- A colon, escaped in lower case. -/
theorem encoded_colon :
    Encoded (fun c => unreserved c = true) "1:1".toList "1%3a1".toList := by
  have hcolon : Escapes (String.utf8EncodeChar ':') ['%', '3', 'a'] := .cons (by decide) .nil
  have htail : Encoded (fun c => unreserved c = true) [':', '1'] (['%', '3', 'a'] ++ ['1']) :=
    .escaped hcolon (.literal (by decide) .nil)
  exact .literal (by decide) htail

/-- A type, a parameter of no concern and a passage. -/
def mixedParameters : List QueryParameter :=
  [.known .type "n" ['n'] (.literal (by decide) .nil),
    .other "frame=top".toList (by decide) (by intro p; cases p <;> decide),
    .known .passage "1:1" "1%3a1".toList encoded_colon]

theorem mixedParameters_link :
    ParameterLink (passageUrl (some "type=n&frame=top&passage=1%3a1")) mixedParameters where
  toPassageLink := passageUrl_link _
  query := by
    have hentries : List.intercalate ['&'] (mixedParameters.map QueryParameter.entry) =
        "type=n&frame=top&passage=1%3a1".toList := by decide
    rw [queryOf, hentries, String.ofList_toList]
    exact Or.inl rfl

theorem mixedParameters_read :
    ∃ ret, dictionaryFromUrl .raises (passageUrl (some "type=n&frame=top&passage=1%3a1")) =
        some ret ∧
      AList.lookup ATTRTYPE_TYPE ret = some "n" ∧
      AList.lookup ATTRTYPE_PASSAGE ret = some "1:1" ∧
      AList.lookup ATTRTYPE_VALUE ret = some "1" ∧
      AList.lookup "frame" ret = none := by
  obtain ⟨ret, hret, hkeys, hother⟩ := parameters_read .raises mixedParameters_link
  exact ⟨ret, hret, hkeys .type, hkeys .passage, hkeys .value,
    hother "frame" fun p => by cases p <;> decide⟩

end ObjCSword
