import ObjCSword.Laws.LinkData
import ObjCSword.Laws.LinkParameters

/-!
# What a link is decoded to

The two kinds of links carry a text that the reader is to look up, and both decode it more than
once. A `sword:` link's path is decoded by the URL, decoded again and stripped of its slashes
(`sword_link_iff`); the parameters of a `passagestudy.jsp` link are decoded by
`dictionaryFromUrl:`, and the one that is looked up once more by the module (`form_link_iff`). The
second decoding is the identity on the texts that hold nothing it would decode, and on no other:
that is what the cost of decoding says (`Lib.Percent.byteLength_decode`), whatever the text is.
-/

namespace ObjCSword

open Sword NSString Lib.Percent

/-! ## The characters of a URL -/

/-- The characters that a URL never needs to escape. -/
def unreserved (c : Char) : Bool := c.isAlphanum || c ∈ ['-', '.', '_', '~']

/-! ## The path of a `sword:` link -/

/-- `e` spells `r` in a path: unreserved characters are kept, all others escaped, and a slash may be
either. -/
def PathSpelling (r e : List Char) : Prop :=
  Spelling (fun c => unreserved c = true ∨ c = '/') (fun c => ¬ unreserved c = true) r e

/-- `sword://m/` and a path. -/
def swordUrl (m : String) (e : List Char) : NSURL where
  scheme := "sword"
  host := some m
  rawPath := .ofList ('/' :: e)
  query := none

theorem swordUrl_path {m : String} {r e : List Char} (h : PathSpelling r e) :
    (swordUrl m e).path = some (.ofList ('/' :: r)) := by
  have hslash : PathSpelling ('/' :: r) ('/' :: e) := .literal (Or.inr rfl) h
  have hpercent : ¬ (unreserved '%' = true ∨ '%' = '/') := by decide
  rw [NSURL.path, stringByReplacingPercentEscapes, swordUrl, String.toList_ofList,
    decode_of_spelling hpercent hslash, Option.map_some]

/-- Removing the slashes. -/
theorem stringByReplacingOccurrences_slash (s : List Char) :
    stringByReplacingOccurrences (.ofList s) "/" "" = .ofList (s.filter (· ≠ '/')) :=
  (stringByReplacingOccurrences_ofList s ['/'] []).trans
    (congrArg String.ofList (Lib.Replace.replace_singleton_nil '/' s))

/-- What the dictionary holds as the value: the path decoded once more, without its slashes. -/
def swordValue (r : List Char) : Option String :=
  (decode ('/' :: r)).map fun t => .ofList (t.filter (· ≠ '/'))

theorem swordUrl_value {m : String} {r e : List Char} (h : PathSpelling r e) :
    ((swordUrl m e).path.bind stringByReplacingPercentEscapes).map
      (fun path => stringByReplacingOccurrences path "/" "") = swordValue r := by
  rw [swordUrl_path h, Option.bind_some, stringByReplacingPercentEscapes, String.toList_ofList,
    Option.map_map, swordValue]
  congr 1
  funext t
  exact stringByReplacingOccurrences_slash t

theorem dictionaryFromUrl_sword (nil : NilStore) {m : String} {r e : List Char}
    (h : PathSpelling r e) (value : String) :
    (∃ ret, SwordUtil.dictionaryFromUrl nil (swordUrl m e) = some ret ∧
        AList.lookup ATTRTYPE_MODULE ret = some m ∧
        AList.lookup ATTRTYPE_VALUE ret = some value) ↔ swordValue r = some value := by
  have hvalue := swordUrl_value (m := m) h
  have hscheme : (swordUrl m e).scheme = "sword" := rfl
  rw [SwordUtil.dictionaryFromUrl, if_pos hscheme, hvalue]
  simp only [Option.bind_eq_bind, Option.bind_eq_some_iff]
  constructor
  · rintro ⟨ret, ⟨d₁, h₁, d₂, h₂, d₃, h₃, h₄⟩, -, hlookup⟩
    rw [NilStore.lookup_set h₄, if_neg (by decide), NilStore.lookup_set h₃, if_neg (by decide),
      NilStore.lookup_set h₂, if_pos rfl] at hlookup
    exact hlookup
  · intro hsome
    rw [hsome]
    refine ⟨_, ⟨_, rfl, _, rfl, _, rfl, rfl⟩, ?_, ?_⟩
    · rw [Dictionary.lookup_insert, if_neg (by decide), Dictionary.lookup_insert,
        if_neg (by decide), Dictionary.lookup_insert, if_neg (by decide),
        Dictionary.lookup_insert, if_pos rfl]
    · rw [Dictionary.lookup_insert, if_neg (by decide), Dictionary.lookup_insert,
        if_neg (by decide), Dictionary.lookup_insert, if_pos rfl]

/-- A slash is one byte. -/
theorem byteLength_filter_slash (s : List Char) :
    byteLength (s.filter (· ≠ '/')) + s.count '/' = byteLength s := by
  induction s with
  | nil => rfl
  | cons c s ih =>
    rw [byteLength_cons]
    by_cases h : c = '/'
    · have hone : (String.utf8EncodeChar '/').length = 1 := by decide
      subst h
      rw [List.filter_cons_of_neg (by decide), List.count_cons_self, hone]
      omega
    · rw [List.filter_cons_of_pos (by simp [h]), List.count_cons_of_ne h, byteLength_cons]
      omega

/-- **A path that is decoded once more and stripped of its slashes** gives the text behind its first
slash back exactly when that holds no slash and no percent sign. -/
theorem swordValue_eq_some_iff (r : List Char) :
    swordValue r = some (.ofList r) ↔ '/' ∉ r ∧ '%' ∉ r := by
  have hslash : (String.utf8EncodeChar '/').length = 1 := by decide
  have hself : '%' ∉ r → decode ('/' :: r) = some ('/' :: r) := by
    intro hpercent
    refine decode_of_not_mem ?_
    rw [List.mem_cons, not_or]
    exact ⟨by decide, hpercent⟩
  rw [swordValue]
  constructor
  · intro hvalue
    obtain ⟨t, ht, hr⟩ := Option.map_eq_some_iff.mp hvalue
    have hlist : t.filter (· ≠ '/') = r := by
      rw [← String.toList_ofList (l := r), ← hr, String.toList_ofList]
    have hcost := byteLength_decode ht
    have hstripped := byteLength_filter_slash t
    rw [hlist] at hstripped
    rw [List.count_cons_of_ne (by decide), byteLength_cons, hslash] at hcost
    -- the leading slash is the one byte that may go, so nothing else went
    by_cases hpercent : '%' ∈ r
    · have := List.count_pos_iff.mpr hpercent
      omega
    · rw [hself hpercent, Option.some.injEq] at ht
      subst ht
      rw [List.count_cons_self] at hstripped
      rw [byteLength_cons, hslash] at hstripped
      exact ⟨List.count_eq_zero.mp (by omega), hpercent⟩
  · rintro ⟨hnoSlash, hpercent⟩
    have hkept : r.filter (· ≠ '/') = r := by
      rw [List.filter_eq_self]
      intro c hc
      have hne : c ≠ '/' := fun heq => hnoSlash (heq ▸ hc)
      simpa using hne
    rw [hself hpercent, Option.map_some, List.filter_cons_of_neg (by decide), hkept]

/-- **A `sword:` link gives its reference back exactly when the reference holds no slash and no
percent sign**, whatever it is and however its slashes are spelled. -/
theorem sword_link_iff (nil : NilStore) (m : String) {r : String} {e : List Char}
    (h : PathSpelling r.toList e) :
    (∃ ret, SwordUtil.dictionaryFromUrl nil (swordUrl m e) = some ret ∧
        AList.lookup ATTRTYPE_MODULE ret = some m ∧
        AList.lookup ATTRTYPE_VALUE ret = some r) ↔
      '/' ∉ r.toList ∧ '%' ∉ r.toList := by
  rw [dictionaryFromUrl_sword nil h, ← swordValue_eq_some_iff, String.ofList_toList]

/-- The path spelling that escapes every slash. -/
def encodePath (r : List Char) : List Char :=
  r.flatMap fun c => if unreserved c then [c] else escapeChar c

theorem pathSpelling_encodePath (r : List Char) : PathSpelling r (encodePath r) := by
  induction r with
  | nil => exact .nil
  | cons c r ih =>
    show PathSpelling (c :: r) ((if unreserved c then [c] else escapeChar c) ++ encodePath r)
    by_cases h : unreserved c = true
    · rw [if_pos h]
      exact .literal (Or.inl h) ih
    · rw [if_neg h]
      exact .escaped h ih

/-- A verse reference. -/
theorem sword_link_verse :
    ∃ ret, SwordUtil.dictionaryFromUrl .removes
        (swordUrl "KJV" (encodePath "Genesis 1:1".toList)) = some ret ∧
      AList.lookup ATTRTYPE_MODULE ret = some "KJV" ∧
      AList.lookup ATTRTYPE_VALUE ret = some "Genesis 1:1" :=
  (sword_link_iff .removes "KJV" (pathSpelling_encodePath "Genesis 1:1".toList)).mpr (by decide)

/-- The key of a node in a book loses the slash that separates the node from its parent. -/
theorem sword_link_tree_key :
    PathSpelling "Preface/Foreword".toList (encodePath "Preface/Foreword".toList) ∧
      (∃ ret, SwordUtil.dictionaryFromUrl .removes
          (swordUrl "Josephus" (encodePath "Preface/Foreword".toList)) = some ret ∧
        AList.lookup ATTRTYPE_MODULE ret = some "Josephus" ∧
        AList.lookup ATTRTYPE_VALUE ret = some "PrefaceForeword") ∧
      ¬ ∃ ret, SwordUtil.dictionaryFromUrl .removes
          (swordUrl "Josephus" (encodePath "Preface/Foreword".toList)) = some ret ∧
        AList.lookup ATTRTYPE_MODULE ret = some "Josephus" ∧
        AList.lookup ATTRTYPE_VALUE ret = some "Preface/Foreword" := by
  have hspelling := pathSpelling_encodePath "Preface/Foreword".toList
  have hvalue : swordValue "Preface/Foreword".toList = some "PrefaceForeword" := by
    rw [swordValue, decode_of_not_mem (by decide)]
    decide
  refine ⟨hspelling, (dictionaryFromUrl_sword .removes hspelling _).mpr hvalue, fun h => ?_⟩
  have hself := (dictionaryFromUrl_sword .removes hspelling _).mp h
  rw [hvalue] at hself
  exact absurd hself (by decide)

/-! ## The parameters of a `passagestudy.jsp` link -/

/-- A parameter: a name that needs no escapes, and the text it carries. -/
structure Parameter where
  name : String
  value : String
  plain : name.toList.all unreserved = true

/-- Form encoding: unreserved characters are kept, a space is a `+`, all others are escaped. -/
def formEncode (text : List Char) : List Char :=
  text.flatMap fun c => if unreserved c then [c] else if c = ' ' then ['+'] else escapeChar c

/-- A text with its spaces written as `+`, which is what decoding the escapes leaves. -/
def plussed (text : List Char) : List Char := text.map fun c => if c = ' ' then '+' else c

/-- A text with every `+` read as a space. -/
def spaced (text : List Char) : List Char := text.map fun c => if c = '+' then ' ' else c

theorem formEncode_spelling (text : List Char) :
    Spelling (fun c => unreserved c = true ∨ c = '+') (fun _ => True) (plussed text)
      (formEncode text) := by
  induction text with
  | nil => exact .nil
  | cons c text ih =>
    show Spelling _ _ ((if c = ' ' then '+' else c) :: plussed text)
      ((if unreserved c then [c] else if c = ' ' then ['+'] else escapeChar c) ++ formEncode text)
    by_cases hunreserved : unreserved c = true
    · have hspace : c ≠ ' ' := by
        rintro rfl
        exact absurd hunreserved (by decide)
      rw [if_pos hunreserved, if_neg hspace]
      exact .literal (Or.inl hunreserved) ih
    · rw [if_neg hunreserved]
      by_cases hspace : c = ' '
      · rw [if_pos hspace, if_pos hspace]
        exact .literal (Or.inr rfl) ih
      · rw [if_neg hspace, if_neg hspace]
        exact .escaped trivial ih

theorem decode_formEncode (text : List Char) : decode (formEncode text) = some (plussed text) :=
  decode_of_spelling (by decide) (formEncode_spelling text)

/-- The characters that structure a query do not occur in encoded text. -/
theorem separator_not_mem_formEncode {d : Char} (h : d = '&' ∨ d = '=') (text : List Char) :
    d ∉ formEncode text := by
  rcases h with rfl | rfl
  · exact not_mem_of_encoded (by decide) (by decide) (by decide) (formEncode_spelling text).encoded
  · exact not_mem_of_encoded (by decide) (by decide) (by decide) (formEncode_spelling text).encoded

namespace Parameter

theorem not_mem_name {q : Parameter} {d : Char} (h : d = '&' ∨ d = '=') : d ∉ q.name.toList := by
  rcases h with rfl | rfl
  · exact fun hmem => absurd (List.all_eq_true.mp q.plain _ hmem) (by decide)
  · exact fun hmem => absurd (List.all_eq_true.mp q.plain _ hmem) (by decide)

/-- `name=value` in a query. -/
def entry (q : Parameter) : List Char := q.name.toList ++ '=' :: formEncode q.value.toList

theorem not_mem_entry (q : Parameter) : '&' ∉ q.entry := by
  intro hmem
  rcases List.mem_append.mp hmem with hmem | hmem
  · exact not_mem_name (Or.inl rfl) hmem
  · rcases List.mem_cons.mp hmem with hmem | hmem
    · exact absurd hmem (by decide)
    · exact separator_not_mem_formEncode (Or.inl rfl) _ hmem

/-- `[entry componentsSeparatedByString:@"="][1]` is the encoded value. -/
theorem valueOf_entry (q : Parameter) :
    SwordUtil.valueOf (.ofList q.entry) = .ofList (formEncode q.value.toList) :=
  valueOf_ofList (not_mem_name (Or.inr rfl)) (separator_not_mem_formEncode (Or.inr rfl) _)

/-- An entry begins as one of the five parameters do exactly when it has its name. -/
theorem hasPrefix_entry (q : Parameter) (p : LinkParameter) :
    hasPrefix (.ofList q.entry) p.lead = true ↔ q.name = p.name := by
  rw [hasPrefix, String.toList_ofList, p.toList_lead, ← String.toList_inj]
  exact Lib.Lists.isPrefixOf_separator p.equals_not_mem_name (not_mem_name (Or.inr rfl)) _

end Parameter

/-- The text a link gives for a parameter; a later one of the same name wins. -/
def given (name : String) : List Parameter → Option String
  | [] => none
  | q :: params => (given name params).or (if q.name = name then some q.value else none)

/-- What a parameter's variable holds after the loop: the encoded text given for it, or its initial
value. -/
def rawValue (name initial : String) (params : List Parameter) : String :=
  match given name params with
  | some text => .ofList (formEncode text.toList)
  | none => initial

/-- The last entry of a parameter is the one that is given last. -/
theorem map_valueOf_lastEntry (p : LinkParameter) (params : List Parameter) :
    (p.lastEntry (params.map fun q => String.ofList q.entry)).map SwordUtil.valueOf =
      (given p.name params).map fun text => .ofList (formEncode text.toList) := by
  induction params with
  | nil => rfl
  | cons q params ih =>
    rw [List.map_cons, LinkParameter.lastEntry_cons, Option.map_or, ih, given, Option.map_or]
    congr 1
    by_cases h : q.name = p.name
    · rw [if_pos h, if_pos ((q.hasPrefix_entry p).mpr h), Option.map_some, Option.map_some,
        q.valueOf_entry]
    · rw [if_neg h, if_neg fun hlead => h ((q.hasPrefix_entry p).mp hlead), Option.map_none,
        Option.map_none]

/-- **The loop over a query** leaves each variable with the text given last for its name. -/
theorem rawText_entries (p : LinkParameter) (params : List Parameter) :
    p.rawText (params.map fun q => String.ofList q.entry) = rawValue p.name p.initial params := by
  rw [LinkParameter.rawText, map_valueOf_lastEntry, rawValue]
  cases given p.name params with
  | none => rfl
  | some text => rfl

/-- The query of a link with the given parameters. -/
def formQuery (params : List Parameter) : String :=
  .ofList (List.intercalate ['&'] (params.map Parameter.entry))

theorem queryEntries_formQuery {params : List Parameter} (h : params ≠ []) :
    queryEntries (some (formQuery params)) = params.map fun q => String.ofList q.entry := by
  rw [queryEntries, Option.map_some, Option.getD_some, formQuery]
  exact components_intercalate h fun q _ => q.not_mem_entry

/-- What the dictionary holds for a parameter: the text with its spaces still written as `+`. -/
def readValue (name initial : String) (params : List Parameter) : String :=
  match given name params with
  | some text => .ofList (plussed text.toList)
  | none => initial

theorem decode_rawValue (name : String) {initial : String} (h : '%' ∉ initial.toList)
    (params : List Parameter) :
    stringByReplacingPercentEscapes (rawValue name initial params) =
      some (readValue name initial params) := by
  rw [rawValue, readValue]
  cases given name params with
  | none => exact stringByReplacingPercentEscapes_of_not_mem h
  | some text =>
    rw [stringByReplacingPercentEscapes, String.toList_ofList, decode_formEncode, Option.map_some]

/-- A `passagestudy.jsp` link with the given parameters. -/
structure FormLink (aURL : NSURL) (params : List Parameter) : Prop where
  scheme : aURL.scheme = "applewebdata"
  path : aURL.path.map lastPathComponent = some "passagestudy.jsp"
  query : aURL.query = some (formQuery params)

/-- The dictionary of a link with parameters: always one, with each text decoded once. -/
theorem dictionaryFromUrl_form (nil : NilStore) {aURL : NSURL} {params : List Parameter}
    (link : FormLink aURL params) (hparams : params ≠ []) :
    ∃ ret, SwordUtil.dictionaryFromUrl nil aURL = some ret ∧
      AList.lookup ATTRTYPE_TYPE ret = some (readValue "type" "x" params) ∧
      AList.lookup ATTRTYPE_PASSAGE ret = some (readValue "passage" "" params) ∧
      AList.lookup ATTRTYPE_VALUE ret = some (readValue "value" "1" params) := by
  have hlink : PassageLink aURL := ⟨link.scheme, link.path⟩
  have htexts : ∀ p : LinkParameter, p.decodedText (queryEntries aURL.query) =
      some (readValue p.name p.initial params) := by
    intro p
    rw [link.query, queryEntries_formQuery hparams, LinkParameter.decodedText, rawText_entries]
    exact decode_rawValue p.name p.percent_not_mem_initial params
  have hsome : ∀ p : LinkParameter, (p.decodedText (queryEntries aURL.query)).isSome := by
    intro p
    rw [htexts p]
    rfl
  obtain ⟨ret, hret⟩ := dictionaryFromUrl_isSome nil hlink hsome
  have hkeys : ∀ p : LinkParameter,
      AList.lookup p.key ret = some (readValue p.name p.initial params) :=
    fun p => ((lookup_dictionaryFromUrl hlink hret).1 p).trans (htexts p)
  exact ⟨ret, hret, hkeys .type, hkeys .passage, hkeys .value⟩

/-! ## What is looked up -/

/-- A text that a link asks the module to look up: the passage of a note, or a reference. -/
inductive LinkedText where
  | note (passage : String)
  | reference (value : String)

namespace LinkedText

def text : LinkedText → String
  | note passage => passage
  | reference value => value

/-- The parameters ask for the text. -/
def GivenBy (params : List Parameter) : LinkedText → Prop
  | note passage => given "type" params = some "n" ∧ given "passage" params = some passage
  | reference value =>
    (given "type" params = some "scripRef" ∨ given "type" params = some "scriptRef") ∧
      given "value" params = some value

/-- The module looks the text up: it sets its key to it, or fetches its text entries. -/
def lookUp {Key : Type} (M : SWModule Key) (self : TextEntries Key) (data : Dictionary String)
    (textType : RenderType) (m : ModuleState Key) : LinkedText → AttributeValue × ModuleState Key
  | note passage => SwordModule.noteLookup M (some passage) (AList.lookup ATTRTYPE_VALUE data) m
  | reference value => SwordModule.referenceLookup self textType (some value) m

end LinkedText

theorem stringByReplacingOccurrences_plus (s : List Char) :
    stringByReplacingOccurrences (.ofList s) "+" " " = .ofList (spaced s) :=
  (stringByReplacingOccurrences_ofList s ['+'] [' ']).trans
    (congrArg String.ofList (Lib.Replace.replace_singleton_by '+' ' ' s))

theorem spaced_plussed (s : List Char) : spaced (plussed s) = spaced s := by
  rw [spaced, plussed, List.map_map, spaced]
  congr 1
  funext c
  by_cases h : c = ' '
  · simp [h]
  · simp [h]

theorem unescapedParameter_plussed (text : List Char) :
    SwordModule.unescapedParameter (.ofList (plussed text)) =
      (decode (spaced text)).map String.ofList := by
  rw [SwordModule.unescapedParameter, stringByReplacingOccurrences_plus, spaced_plussed,
    stringByReplacingPercentEscapes, String.toList_ofList]

theorem byteLength_spaced (s : List Char) : byteLength (spaced s) = byteLength s := by
  induction s with
  | nil => rfl
  | cons c s ih =>
    show byteLength ((if c = '+' then ' ' else c) :: spaced s) = byteLength (c :: s)
    rw [byteLength_cons, byteLength_cons, ih]
    by_cases h : c = '+'
    · rw [if_pos h, h]
      rfl
    · rw [if_neg h]

theorem plus_not_mem_spaced (s : List Char) : '+' ∉ spaced s := by
  intro hmem
  obtain ⟨c, -, hc⟩ := List.mem_map.mp hmem
  by_cases h : c = '+'
  · rw [if_pos h] at hc
    exact absurd hc (by decide)
  · rw [if_neg h] at hc
    exact h hc

theorem spaced_of_not_mem {s : List Char} (h : '+' ∉ s) : spaced s = s := by
  have hkeep : ∀ c ∈ s, (if c = '+' then ' ' else c) = c := by
    intro c hc
    have hne : c ≠ '+' := by
      rintro rfl
      exact h hc
    exact if_neg hne
  rw [spaced, List.map_congr_left hkeep, List.map_id']

/-- **Decoding twice.** The text that reaches the module is the text of the link exactly when that
holds no `+` and no percent sign. -/
theorem decode_spaced_iff (s : List Char) :
    decode (spaced s) = some s ↔ '+' ∉ s ∧ '%' ∉ s := by
  constructor
  · intro h
    have hcost := byteLength_decode h
    rw [byteLength_spaced] at hcost
    have hpercent : '%' ∉ spaced s := List.count_eq_zero.mp (by omega)
    rw [decode_of_not_mem hpercent, Option.some.injEq] at h
    have hplus := plus_not_mem_spaced s
    rw [h] at hplus hpercent
    exact ⟨hplus, hpercent⟩
  · rintro ⟨hplus, hpercent⟩
    rw [spaced_of_not_mem hplus, decode_of_not_mem hpercent]

theorem given_ne_nil {name text : String} {params : List Parameter}
    (h : given name params = some text) : params ≠ [] := by
  rintro rfl
  cases h

/-- A module that does nothing but remember the text its key was set to. -/
def spyModule : SWModule (Option String) where
  setText _ text := text
  getText k := k.getD ""
  createKey := none
  error _ := false
  renderText k := k
  stripText k := k
  entryAttributes _ := ∅
  getConfigEntry _ := none
  has _ _ := false
  globalOption _ := false

/-- Methods that answer for a reference with an entry that names it. -/
def spyEntries : TextEntries (Option String) where
  strippedTextEntriesForReference reference m := (some [⟨reference, "", none⟩], m)
  renderedTextEntriesForReference reference m := (some [⟨reference, "", none⟩], m)

/-- A note lookup tells by the module's key which passage it was for. -/
theorem noteLookup_inj {passage passage' index : Option String} {m : ModuleState (Option String)}
    (h : SwordModule.noteLookup spyModule passage index m =
      SwordModule.noteLookup spyModule passage' index m) : passage = passage' :=
  congrArg (fun out : AttributeValue × ModuleState (Option String) => out.2.key) h

/-- A reference lookup tells by its entries which reference it was for. -/
theorem referenceLookup_inj {reference reference' : Option String}
    {m : ModuleState (Option String)}
    (h : SwordModule.referenceLookup spyEntries .stripped reference m =
      SwordModule.referenceLookup spyEntries .stripped reference' m) : reference = reference' := by
  have hentries : AttributeValue.entries [⟨reference, "", none⟩] =
      AttributeValue.entries [⟨reference', "", none⟩] := congrArg Prod.fst h
  simpa using hentries

theorem map_ofList_eq_some (decoded : Option (List Char)) (text : String) :
    decoded.map String.ofList = some text ↔ decoded = some text.toList := by
  cases decoded with
  | none => exact iff_of_false (by simp) (by simp)
  | some s =>
    rw [Option.map_some, Option.some.injEq, Option.some.injEq]
    exact ⟨fun h => by rw [← h, String.toList_ofList], fun h => by rw [h, String.ofList_toList]⟩

/-- The text that the module takes from the dictionary of a link is the one the link gives exactly
when that holds no `+` and no percent sign. -/
theorem text_reaches_iff {name text : String} (initial : String) {params : List Parameter}
    (h : given name params = some text) :
    SwordModule.unescapedParameter (readValue name initial params) = some text ↔
      '+' ∉ text.toList ∧ '%' ∉ text.toList := by
  have hread : readValue name initial params = .ofList (plussed text.toList) := by
    rw [readValue, h]
  rw [hread, unescapedParameter_plussed, map_ofList_eq_some, decode_spaced_iff]

/-- Where the parsed link is looked up at what was read and the lookup tells the spies what it was
for, the linked text is looked up exactly when it is what was read. -/
theorem lookUp_iff_read {nil : NilStore} {aURL : NSURL} {ret : Dictionary String}
    (hret : SwordUtil.dictionaryFromUrl nil aURL = some ret) {t : LinkedText} {read : Option String}
    (look : ∀ {Key : Type}, SWModule Key → TextEntries Key → RenderType → ModuleState Key →
      Option String → AttributeValue × ModuleState Key)
    (hread : ∀ {Key : Type} (M : SWModule Key) (self : TextEntries Key) (textType : RenderType)
      (m : ModuleState Key), SwordModule.attributeValueForParsedLinkData M self ret textType m =
        look M self textType m read)
    (htext : ∀ {Key : Type} (M : SWModule Key) (self : TextEntries Key) (textType : RenderType)
      (m : ModuleState Key), t.lookUp M self ret textType m =
        look M self textType m (some t.text))
    (hspy : ∀ reference, look spyModule spyEntries .stripped ⟨none, false, ∅⟩ read =
      look spyModule spyEntries .stripped ⟨none, false, ∅⟩ reference → read = reference) :
    (∃ data, SwordUtil.dictionaryFromUrl nil aURL = some data ∧
        ∀ {Key : Type} (M : SWModule Key) (self : TextEntries Key) (textType : RenderType)
          (m : ModuleState Key),
          SwordModule.attributeValueForParsedLinkData M self data textType m =
            t.lookUp M self data textType m) ↔ read = some t.text := by
  constructor
  · rintro ⟨data, hdata, hall⟩
    obtain rfl : ret = data := Option.some.inj (hret.symm.trans hdata)
    have hsame := hall spyModule spyEntries .stripped ⟨none, false, ∅⟩
    rw [hread, htext] at hsame
    exact hspy _ hsame
  · intro hsame
    refine ⟨ret, hret, fun M self textType m => ?_⟩
    rw [hread, htext, hsame]

/-- A note is looked up at its passage exactly when decoding twice leaves the passage. -/
theorem note_link_iff (nil : NilStore) {aURL : NSURL} {params : List Parameter}
    (link : FormLink aURL params) {passage : String}
    (h : (LinkedText.note passage).GivenBy params) :
    (∃ data, SwordUtil.dictionaryFromUrl nil aURL = some data ∧
        ∀ {Key : Type} (M : SWModule Key) (self : TextEntries Key) (textType : RenderType)
          (m : ModuleState Key),
          SwordModule.attributeValueForParsedLinkData M self data textType m =
            (LinkedText.note passage).lookUp M self data textType m) ↔
      SwordModule.unescapedParameter (readValue "passage" "" params) = some passage := by
  obtain ⟨ret, hret, hretType, hretPassage, -⟩ :=
    dictionaryFromUrl_form nil link (given_ne_nil h.1)
  have hn : AList.lookup ATTRTYPE_TYPE ret = some "n" := by
    rw [hretType, readValue, h.1]
    rfl
  have hread : SwordModule.passageOf ret =
      SwordModule.unescapedParameter (readValue "passage" "" params) := by
    rw [SwordModule.passageOf, hretPassage, Option.bind_some]
  rw [← hread]
  exact lookUp_iff_read hret
    (fun M _ _ m passage => SwordModule.noteLookup M passage (AList.lookup ATTRTYPE_VALUE ret) m)
    (fun _ _ textType m => SwordModule.attributeValue_note hn textType m)
    (fun _ _ _ _ => rfl) (fun _ => noteLookup_inj)

/-- A reference is fetched exactly when decoding twice leaves it. -/
theorem reference_link_iff (nil : NilStore) {aURL : NSURL} {params : List Parameter}
    (link : FormLink aURL params) {value : String}
    (h : (LinkedText.reference value).GivenBy params) :
    (∃ data, SwordUtil.dictionaryFromUrl nil aURL = some data ∧
        ∀ {Key : Type} (M : SWModule Key) (self : TextEntries Key) (textType : RenderType)
          (m : ModuleState Key),
          SwordModule.attributeValueForParsedLinkData M self data textType m =
            (LinkedText.reference value).lookUp M self data textType m) ↔
      SwordModule.unescapedParameter (readValue "value" "1" params) = some value := by
  obtain ⟨ret, hret, hretType, -, hretValue⟩ :=
    dictionaryFromUrl_form nil link (given_ne_nil h.2)
  have href : AList.lookup ATTRTYPE_TYPE ret = some "scriptRef" ∨
      AList.lookup ATTRTYPE_TYPE ret = some "scripRef" := by
    rw [hretType, readValue]
    rcases h.1 with htype | htype
    · rw [htype]
      exact Or.inr rfl
    · rw [htype]
      exact Or.inl rfl
  have hread : (AList.lookup ATTRTYPE_VALUE ret).bind SwordModule.unescapedParameter =
      SwordModule.unescapedParameter (readValue "value" "1" params) := by
    rw [hretValue, Option.bind_some]
  rw [← hread]
  exact lookUp_iff_read hret
    (fun _ self textType m reference => SwordModule.referenceLookup self textType reference m)
    (fun _ _ textType m => SwordModule.attributeValue_reference href textType m)
    (fun _ _ _ _ => rfl) (fun _ => referenceLookup_inj)

/-- **A `passagestudy.jsp` link looks its text up exactly when the text holds no `+` and no percent
sign**: with these it is another text that every module is asked for, and some module can tell. -/
theorem form_link_iff (nil : NilStore) {aURL : NSURL} {params : List Parameter}
    (link : FormLink aURL params) {t : LinkedText} (h : t.GivenBy params) :
    (∃ data, SwordUtil.dictionaryFromUrl nil aURL = some data ∧
        ∀ {Key : Type} (M : SWModule Key) (self : TextEntries Key) (textType : RenderType)
          (m : ModuleState Key),
          SwordModule.attributeValueForParsedLinkData M self data textType m =
            t.lookUp M self data textType m) ↔
      '+' ∉ t.text.toList ∧ '%' ∉ t.text.toList := by
  cases t with
  | note passage => exact (note_link_iff nil link h).trans (text_reaches_iff "" h.2)
  | reference value => exact (reference_link_iff nil link h).trans (text_reaches_iff "1" h.2)

/-- The link of a note as the filters write it. -/
def jspUrl (params : List Parameter) : NSURL where
  scheme := "applewebdata"
  host := some "2B8A1F"
  rawPath := "/passagestudy.jsp"
  query := some (formQuery params)

theorem jspUrl_link (params : List Parameter) : FormLink (jspUrl params) params where
  scheme := rfl
  path := (passageUrl_link (some (formQuery params))).path
  query := rfl

def noteParameters : List Parameter :=
  [⟨"action", "showNote", by decide⟩, ⟨"type", "n", by decide⟩, ⟨"value", "1", by decide⟩,
    ⟨"module", "KJV", by decide⟩, ⟨"passage", "Genesis 1:1", by decide⟩]

/-- The note of a verse. -/
theorem form_link_verse :
    ∃ data, SwordUtil.dictionaryFromUrl .raises (jspUrl noteParameters) = some data ∧
      ∀ {Key : Type} (M : SWModule Key) (self : TextEntries Key) (textType : RenderType)
        (m : ModuleState Key),
        SwordModule.attributeValueForParsedLinkData M self data textType m =
          (LinkedText.note "Genesis 1:1").lookUp M self data textType m :=
  (form_link_iff .raises (jspUrl_link noteParameters)
    (t := .note "Genesis 1:1") ⟨by decide, by decide⟩).mpr (by decide)

def sumParameters : List Parameter :=
  [⟨"action", "showRef", by decide⟩, ⟨"type", "scripRef", by decide⟩,
    ⟨"value", "1+1", by decide⟩]

/-- The reference `1+1` reaches the module as `1 1`. -/
theorem form_link_plus :
    FormLink (jspUrl sumParameters) sumParameters ∧
      (LinkedText.reference "1+1").GivenBy sumParameters ∧
      ∃ data, SwordUtil.dictionaryFromUrl .removes (jspUrl sumParameters) = some data ∧
        (SwordModule.attributeValueForParsedLinkData spyModule spyEntries data .stripped
          ⟨none, false, ∅⟩).1 = .entries [⟨some "1 1", "", none⟩] := by
  obtain ⟨ret, hret, hretType, -, hretValue⟩ :=
    dictionaryFromUrl_form .removes (jspUrl_link sumParameters) (by decide)
  have hread : readValue "value" "1" sumParameters = .ofList (plussed "1+1".toList) := by decide
  have htext : SwordModule.unescapedParameter (readValue "value" "1" sumParameters) =
      some "1 1" := by
    rw [hread, unescapedParameter_plussed, decode_of_not_mem (by decide)]
    decide
  have href : AList.lookup ATTRTYPE_TYPE ret = some "scripRef" := by
    rw [hretType]
    decide
  refine ⟨jspUrl_link sumParameters, ⟨Or.inl (by decide), by decide⟩, ret, hret, ?_⟩
  rw [SwordModule.attributeValue_reference (Or.inr href), hretValue, Option.bind_some, htext]
  rfl

end ObjCSword
