import Mathlib.Data.List.Induction
import ObjCSword.SwordUtil

/-!
# The five parameters of a link

The query of a `passagestudy.jsp` link is split at its `&`, each entry is told by the text it begins
with, and what stands between its first two `=` is decoded at the end. The five parameters are
treated alike, so they are one type here, and the five variables of the loop are read and written
through it (`get`, `set`).

No entry begins as two parameters do, so a variable is what the last entry of its parameter carries
(`get_foldl_readEntry`), and the dictionary holds these texts, decoded (`lookup_dictionaryFromUrl`).
Any query is read that way, unless one of the texts does not decode: then nil is stored
(`all_keys_iff`).
-/

namespace ObjCSword

open NSString Lib.Percent SwordUtil

/-! ## The parameters -/

/-- A parameter of a `passagestudy.jsp` link. -/
inductive LinkParameter where
  | type | moduleName | passage | value | action
deriving DecidableEq, Repr

namespace LinkParameter

/-- The name in the query. -/
def name : LinkParameter → String
  | type => "type"
  | moduleName => "module"
  | passage => "passage"
  | value => "value"
  | action => "action"

/-- The text by which the loop knows an entry of the parameter. -/
def lead : LinkParameter → String
  | type => "type="
  | moduleName => "module="
  | passage => "passage="
  | value => "value="
  | action => "action="

/-- The key in the dictionary. -/
def key : LinkParameter → String
  | type => ATTRTYPE_TYPE
  | moduleName => ATTRTYPE_MODULE
  | passage => ATTRTYPE_PASSAGE
  | value => ATTRTYPE_VALUE
  | action => ATTRTYPE_ACTION

/-- The text of a parameter that is not given. -/
def initial : LinkParameter → String
  | type => "x"
  | moduleName => ""
  | passage => ""
  | value => "1"
  | action => ""

/-- The parameter's variable. -/
def get : LinkParameter → LinkParameters → String
  | type, vars => vars.type
  | moduleName, vars => vars.moduleName
  | passage, vars => vars.passage
  | value, vars => vars.value
  | action, vars => vars.action

def set (p : LinkParameter) (text : String) (vars : LinkParameters) : LinkParameters :=
  match p with
  | type => { vars with type := text }
  | moduleName => { vars with moduleName := text }
  | passage => { vars with passage := text }
  | value => { vars with value := text }
  | action => { vars with action := text }

theorem get_initial (p : LinkParameter) : p.get {} = p.initial := by
  cases p <;> rfl

theorem get_set (p q : LinkParameter) (text : String) (vars : LinkParameters) :
    p.get (q.set text vars) = if p = q then text else p.get vars := by
  cases p <;> cases q <;> rfl

theorem toList_lead (p : LinkParameter) : p.lead.toList = p.name.toList ++ ['='] := by
  cases p <;> decide

theorem equals_not_mem_name (p : LinkParameter) : '=' ∉ p.name.toList := by
  cases p <;> decide

theorem ampersand_not_mem_name (p : LinkParameter) : '&' ∉ p.name.toList := by
  cases p <;> decide

theorem percent_not_mem_initial (p : LinkParameter) : '%' ∉ p.initial.toList := by
  cases p <;> decide

theorem name_injective {p q : LinkParameter} (h : p.name = q.name) : p = q := by
  cases p <;> cases q <;> first | rfl | exact absurd h (by decide)

theorem key_injective {p q : LinkParameter} (h : p.key = q.key) : p = q := by
  cases p <;> cases q <;> first | rfl | exact absurd h (by decide)

end LinkParameter

/-! ## One entry -/

/-- The name of an entry: the text before its first `=`. -/
def entryName (entry : List Char) : List Char := entry.takeWhile (· ≠ '=')

theorem entryName_append {name : List Char} (h : '=' ∉ name) (rest : List Char) :
    entryName (name ++ '=' :: rest) = name := by
  have hname : ∀ c ∈ name, (decide (c ≠ '=')) = true :=
    fun c hc => decide_eq_true fun heq => h (heq ▸ hc)
  rw [entryName, List.takeWhile_append_of_pos hname, List.takeWhile_cons_of_neg (by decide),
    List.append_nil]

/-- An entry that begins as a parameter does, is its name, a `=` and the rest. -/
theorem split_of_hasPrefix {entry : String} {p : LinkParameter}
    (h : hasPrefix entry p.lead = true) :
    ∃ rest, entry.toList = p.name.toList ++ '=' :: rest := by
  rw [hasPrefix, List.isPrefixOf_iff_prefix, p.toList_lead] at h
  obtain ⟨rest, hrest⟩ := h
  exact ⟨rest, by rw [← hrest, List.append_assoc]; rfl⟩

/-- The entry's name tells its parameter. -/
theorem entryName_of_hasPrefix {entry : String} {p : LinkParameter}
    (h : hasPrefix entry p.lead = true) : entryName entry.toList = p.name.toList := by
  obtain ⟨rest, hrest⟩ := split_of_hasPrefix h
  rw [hrest, entryName_append p.equals_not_mem_name]

theorem eq_of_hasPrefix {entry : String} {p q : LinkParameter} (hp : hasPrefix entry p.lead = true)
    (hq : hasPrefix entry q.lead = true) : p = q := by
  apply LinkParameter.name_injective
  rw [← String.toList_inj, ← entryName_of_hasPrefix hp, ← entryName_of_hasPrefix hq]

/-- **No index past the end**: an entry that begins as a parameter does has a second component. -/
theorem one_lt_components {entry : String} {p : LinkParameter}
    (h : hasPrefix entry p.lead = true) :
    1 < (componentsSeparatedByString entry '=').length := by
  obtain ⟨rest, hrest⟩ := split_of_hasPrefix h
  rw [componentsSeparatedByString, List.length_map, hrest,
    List.splitOn_append_cons_self_of_not_mem p.equals_not_mem_name, List.length_cons]
  have hpos := List.length_pos_iff.mpr (List.splitOn_ne_nil '=' rest)
  omega

/-- The second component of an entry with one `=`. -/
theorem valueOf_ofList {name value : List Char} (hname : '=' ∉ name) (hvalue : '=' ∉ value) :
    valueOf (.ofList (name ++ '=' :: value)) = .ofList value := by
  rw [valueOf, componentsSeparatedByString, String.toList_ofList,
    List.splitOn_append_cons_self_of_not_mem hname, List.splitOn_eq_singleton hvalue]
  rfl

/-- The loop's body, by parameters. -/
theorem readEntry_eq (vars : LinkParameters) (entry : String) :
    readEntry vars entry =
      if hasPrefix entry LinkParameter.type.lead then LinkParameter.type.set (valueOf entry) vars
      else if hasPrefix entry LinkParameter.moduleName.lead then
        LinkParameter.moduleName.set (valueOf entry) vars
      else if hasPrefix entry LinkParameter.passage.lead then
        LinkParameter.passage.set (valueOf entry) vars
      else if hasPrefix entry LinkParameter.action.lead then
        LinkParameter.action.set (valueOf entry) vars
      else if hasPrefix entry LinkParameter.value.lead then
        LinkParameter.value.set (valueOf entry) vars
      else vars := rfl

/-- What the loop does with an entry of a parameter: the branches before it are for others. -/
theorem readEntry_of_hasPrefix {entry : String} {p : LinkParameter}
    (h : hasPrefix entry p.lead = true) (vars : LinkParameters) :
    readEntry vars entry = p.set (valueOf entry) vars := by
  have hother : ∀ q : LinkParameter, q ≠ p → ¬ hasPrefix entry q.lead = true :=
    fun q hne hq => hne (eq_of_hasPrefix hq h)
  have htype := hother .type
  have hmodule := hother .moduleName
  have hpassage := hother .passage
  have haction := hother .action
  rw [readEntry_eq]
  cases p with
  | type => rw [if_pos h]
  | moduleName => rw [if_neg (htype nofun), if_pos h]
  | passage => rw [if_neg (htype nofun), if_neg (hmodule nofun), if_pos h]
  | action => rw [if_neg (htype nofun), if_neg (hmodule nofun), if_neg (hpassage nofun), if_pos h]
  | value =>
    rw [if_neg (htype nofun), if_neg (hmodule nofun), if_neg (hpassage nofun),
      if_neg (haction nofun), if_pos h]

theorem readEntry_of_foreign {entry : String}
    (h : ∀ p : LinkParameter, ¬ hasPrefix entry p.lead = true) (vars : LinkParameters) :
    readEntry vars entry = vars := by
  rw [readEntry_eq, if_neg (h .type), if_neg (h .moduleName), if_neg (h .passage),
    if_neg (h .action), if_neg (h .value)]

/-- One turn of the loop, seen from one variable. -/
theorem get_readEntry (p : LinkParameter) (vars : LinkParameters) (entry : String) :
    p.get (readEntry vars entry) =
      if hasPrefix entry p.lead = true then valueOf entry else p.get vars := by
  by_cases hany : ∃ q : LinkParameter, hasPrefix entry q.lead = true
  · obtain ⟨q, hq⟩ := hany
    rw [readEntry_of_hasPrefix hq, LinkParameter.get_set]
    by_cases heq : p = q
    · rw [if_pos heq, heq, if_pos hq]
    · rw [if_neg heq, if_neg fun hp => heq (eq_of_hasPrefix hp hq)]
  · rw [not_exists] at hany
    rw [readEntry_of_foreign hany, if_neg (hany p)]

/-! ## The loop -/

namespace LinkParameter

/-- The last entry of the parameter. -/
def lastEntry (p : LinkParameter) (entries : List String) : Option String :=
  entries.reverse.find? fun entry => hasPrefix entry p.lead

theorem lastEntry_append_singleton (p : LinkParameter) (entries : List String) (entry : String) :
    p.lastEntry (entries ++ [entry]) =
      if hasPrefix entry p.lead = true then some entry else p.lastEntry entries := by
  rw [lastEntry, List.reverse_append, List.reverse_singleton, List.singleton_append]
  by_cases h : hasPrefix entry p.lead = true
  · rw [if_pos h]
    exact List.find?_cons_of_pos h
  · rw [if_neg h]
    exact List.find?_cons_of_neg h

theorem lastEntry_cons (p : LinkParameter) (entry : String) (entries : List String) :
    p.lastEntry (entry :: entries) =
      (p.lastEntry entries).or (if hasPrefix entry p.lead = true then some entry else none) := by
  rw [lastEntry, List.reverse_cons, List.find?_append, List.find?_singleton, lastEntry]

/-- What the entries carry for the parameter, as it stands in the query. -/
def rawText (p : LinkParameter) (entries : List String) : String :=
  ((p.lastEntry entries).map valueOf).getD p.initial

end LinkParameter

/-- **The loop over a query** leaves each variable with what the last entry of its parameter
carries. -/
theorem get_foldl_readEntry (p : LinkParameter) (entries : List String) :
    p.get (entries.foldl readEntry {}) = p.rawText entries := by
  induction entries using List.reverseRecOn with
  | nil => exact p.get_initial
  | append_singleton entries entry ih =>
    rw [List.foldl_append, List.foldl_cons, List.foldl_nil, get_readEntry, ih,
      LinkParameter.rawText, LinkParameter.rawText, LinkParameter.lastEntry_append_singleton]
    by_cases h : hasPrefix entry p.lead = true
    · rw [if_pos h, if_pos h]
      rfl
    · rw [if_neg h, if_neg h]

/-! ## The dictionary -/

/-- The parameters in the order in which they are stored. -/
def storedParameters : List LinkParameter := [.moduleName, .passage, .value, .action, .type]

/-- A run of `dictionary[key] = value`. -/
def storeParameters (nil : NilStore) (texts : LinkParameter → Option String)
    (params : List LinkParameter) (dictionary : Dictionary String) : Option (Dictionary String) :=
  params.foldlM (fun ret p => nil.set ret p.key (texts p)) dictionary

theorem storeParameters_cons (nil : NilStore) (texts : LinkParameter → Option String)
    (p : LinkParameter) (params : List LinkParameter) (dictionary : Dictionary String) :
    storeParameters nil texts (p :: params) dictionary =
      (nil.set dictionary p.key (texts p)).bind (storeParameters nil texts params) :=
  List.foldlM_cons

/-- Reading after the stores: each parameter has its own key. -/
theorem lookup_storeParameters {nil : NilStore} {texts : LinkParameter → Option String}
    {params : List LinkParameter} {dictionary ret : Dictionary String}
    (h : storeParameters nil texts params dictionary = some ret) :
    (∀ p ∈ params, AList.lookup p.key ret = texts p) ∧
      ∀ key, (∀ p ∈ params, key ≠ p.key) → AList.lookup key ret = AList.lookup key dictionary := by
  induction params generalizing dictionary with
  | nil =>
    obtain rfl : dictionary = ret := Option.some.inj h
    exact ⟨fun p hp => absurd hp List.not_mem_nil, fun _ _ => rfl⟩
  | cons p params ih =>
    rw [storeParameters_cons] at h
    obtain ⟨d, hset, hrest⟩ := Option.bind_eq_some_iff.mp h
    obtain ⟨hmem, hframe⟩ := ih hrest
    refine ⟨?_, fun key hkey => ?_⟩
    · intro q hq
      by_cases hlater : q ∈ params
      · exact hmem q hlater
      · obtain rfl : q = p := (List.mem_cons.mp hq).resolve_right hlater
        have hown : ∀ r ∈ params, q.key ≠ r.key :=
          fun r hr heq => hlater (LinkParameter.key_injective heq ▸ hr)
        rw [hframe _ hown, NilStore.lookup_set hset, if_pos rfl]
    · rw [List.forall_mem_cons] at hkey
      rw [hframe key hkey.2, NilStore.lookup_set hset, if_neg hkey.1]

/-- No exception without a nil. -/
theorem storeParameters_isSome (nil : NilStore) {texts : LinkParameter → Option String}
    (h : ∀ p, (texts p).isSome) (params : List LinkParameter) (dictionary : Dictionary String) :
    ∃ ret, storeParameters nil texts params dictionary = some ret := by
  induction params generalizing dictionary with
  | nil => exact ⟨dictionary, rfl⟩
  | cons p params ih =>
    obtain ⟨text, htext⟩ := Option.isSome_iff_exists.mp (h p)
    rw [storeParameters_cons, htext]
    exact ih _

theorem mem_storedParameters (p : LinkParameter) : p ∈ storedParameters := by
  cases p <;> decide

/-- The entries of a query; a URL without one has none. -/
def queryEntries (query : Option String) : List String :=
  (query.map fun query => componentsSeparatedByString query '&').getD []

/-- A URL that the second branch of `dictionaryFromUrl:` is for. -/
structure PassageLink (aURL : NSURL) : Prop where
  scheme : aURL.scheme = "applewebdata"
  path : aURL.path.map lastPathComponent = some "passagestudy.jsp"

namespace LinkParameter

/-- What the entries carry for the parameter, decoded. -/
def decodedText (p : LinkParameter) (entries : List String) : Option String :=
  stringByReplacingPercentEscapes (p.rawText entries)

theorem decodedText_append_singleton (p : LinkParameter) (entries : List String)
    (entry : String) :
    p.decodedText (entries ++ [entry]) =
      if hasPrefix entry p.lead = true then stringByReplacingPercentEscapes (valueOf entry)
      else p.decodedText entries := by
  rw [decodedText, rawText, lastEntry_append_singleton]
  by_cases h : hasPrefix entry p.lead = true
  · rw [if_pos h, if_pos h, Option.map_some, Option.getD_some]
  · rw [if_neg h, if_neg h, decodedText, rawText]

end LinkParameter

/-- The branch stores the decoded texts. -/
theorem dictionaryFromUrl_eq_store (nil : NilStore) {aURL : NSURL} (link : PassageLink aURL) :
    dictionaryFromUrl nil aURL =
      storeParameters nil (fun p => p.decodedText (queryEntries aURL.query)) storedParameters ∅ := by
  have hnotSword : aURL.scheme ≠ "sword" := by
    rw [link.scheme]
    decide
  have htext := get_foldl_readEntry
  rw [dictionaryFromUrl, if_neg hnotSword, if_pos link.scheme, if_pos link.path]
  simp only [storedParameters, storeParameters, List.foldlM_cons, List.foldlM_nil, bind_pure,
    LinkParameter.decodedText, ← htext]
  rfl

/-- The keys of the parameters hold their texts, and there is no other key. -/
theorem lookup_dictionaryFromUrl {nil : NilStore} {aURL : NSURL} (link : PassageLink aURL)
    {ret : Dictionary String} (h : dictionaryFromUrl nil aURL = some ret) :
    (∀ p : LinkParameter, AList.lookup p.key ret = p.decodedText (queryEntries aURL.query)) ∧
      ∀ key, (∀ p : LinkParameter, key ≠ p.key) → AList.lookup key ret = none := by
  rw [dictionaryFromUrl_eq_store nil link] at h
  obtain ⟨htexts, hframe⟩ := lookup_storeParameters h
  exact ⟨fun p => htexts p (mem_storedParameters p), fun key hkey => hframe key fun p _ => hkey p⟩

/-- **No nil, no exception.** -/
theorem dictionaryFromUrl_isSome (nil : NilStore) {aURL : NSURL} (link : PassageLink aURL)
    (h : ∀ p : LinkParameter, (p.decodedText (queryEntries aURL.query)).isSome) :
    ∃ ret, dictionaryFromUrl nil aURL = some ret := by
  rw [dictionaryFromUrl_eq_store nil link]
  exact storeParameters_isSome nil h _ _

/-! ## Any query -/

/-- The initial texts decode, so the texts of the given parameters decide. -/
theorem decodedText_isSome_iff (p : LinkParameter) (entries : List String) :
    (p.decodedText entries).isSome ↔
      ∀ entry, p.lastEntry entries = some entry →
        ∃ text, StandsFor (valueOf entry).toList (utf8 text) := by
  rw [LinkParameter.decodedText, LinkParameter.rawText]
  cases hlast : p.lastEntry entries with
  | none =>
    have hinitial := stringByReplacingPercentEscapes_of_not_mem p.percent_not_mem_initial
    rw [Option.map_none, Option.getD_none, hinitial]
    exact iff_of_true rfl nofun
  | some entry =>
    rw [Option.map_some, Option.getD_some, stringByReplacingPercentEscapes, Option.isSome_map,
      decode_isSome_iff]
    exact ⟨fun h _ heq => Option.some.inj heq ▸ h, fun h => h entry rfl⟩

/-- **A link's dictionary has all five keys exactly when the text of the last entry of each
parameter is escaped as it should be**, whatever the query is: every `%` begins an escape, and the
bytes are UTF-8. No entry is indexed past its end. -/
theorem all_keys_iff (nil : NilStore) {aURL : NSURL} (link : PassageLink aURL) :
    ((∀ entry ∈ queryEntries aURL.query, ∀ p : LinkParameter, hasPrefix entry p.lead = true →
        1 < (componentsSeparatedByString entry '=').length) ∧
      ∃ ret, dictionaryFromUrl nil aURL = some ret ∧
        ∀ p : LinkParameter, (AList.lookup p.key ret).isSome) ↔
    ∀ (p : LinkParameter) (entry : String),
      p.lastEntry (queryEntries aURL.query) = some entry →
        ∃ text, StandsFor (valueOf entry).toList (utf8 text) := by
  have hdecodes : (∀ (p : LinkParameter) (entry : String),
      p.lastEntry (queryEntries aURL.query) = some entry →
        ∃ text, StandsFor (valueOf entry).toList (utf8 text)) ↔
      ∀ p : LinkParameter, (p.decodedText (queryEntries aURL.query)).isSome :=
    forall_congr' fun p => (decodedText_isSome_iff p _).symm
  rw [hdecodes]
  constructor
  · rintro ⟨-, ret, hret, hkeys⟩ p
    rw [← (lookup_dictionaryFromUrl link hret).1 p]
    exact hkeys p
  · intro htexts
    obtain ⟨ret, hret⟩ := dictionaryFromUrl_isSome nil link htexts
    refine ⟨fun entry _ p => one_lt_components, ret, hret, fun p => ?_⟩
    rw [(lookup_dictionaryFromUrl link hret).1 p]
    exact htexts p

/-- `applewebdata://2B8A1F/passagestudy.jsp` with a query. -/
def passageUrl (query : Option String) : NSURL where
  scheme := "applewebdata"
  host := some "2B8A1F"
  rawPath := "/passagestudy.jsp"
  query := query

theorem passageUrl_link (query : Option String) : PassageLink (passageUrl query) where
  scheme := rfl
  path := by
    have hpath : (passageUrl query).path = some "/passagestudy.jsp" :=
      stringByReplacingPercentEscapes_of_not_mem (s := "/passagestudy.jsp") (by decide)
    rw [hpath]
    decide

/-- A query with an escaped passage, a parameter without a value and an empty entry. -/
def escapedQuery : Option String := some "type&&passage=Ps%201"

theorem all_keys_escaped :
    (∀ entry ∈ queryEntries (passageUrl escapedQuery).query,
      ∀ p : LinkParameter, hasPrefix entry p.lead = true →
        1 < (componentsSeparatedByString entry '=').length) ∧
      ∃ ret, dictionaryFromUrl .raises (passageUrl escapedQuery) = some ret ∧
        ∀ p : LinkParameter, (AList.lookup p.key ret).isSome := by
  refine (all_keys_iff .raises (passageUrl_link _)).mpr fun p entry hlast => ?_
  have hpassage : p = .passage ∨ p.lastEntry (queryEntries escapedQuery) = none := by
    cases p <;> decide
  rcases hpassage with rfl | hnone
  · have hentry : LinkParameter.passage.lastEntry (queryEntries escapedQuery) =
        some "passage=Ps%201" := by decide
    have hvalue : (valueOf "passage=Ps%201").toList = ['P', 's', '%', '2', '0', '1'] := by decide
    obtain rfl : "passage=Ps%201" = entry := Option.some.inj (hentry.symm.trans hlast)
    rw [hvalue]
    have hspace : StandsFor ['%', '2', '0', '1'] (utf8 [' ', '1']) :=
      .escape (by decide) (.literal (by decide) .nil)
    exact ⟨['P', 's', ' ', '1'], .literal (by decide) (.literal (by decide) hspace)⟩
  · exact absurd (hnone.symm.trans hlast) (Option.some_ne_none entry).symm

/-- The byte `FF` begins no character of UTF-8. -/
theorem decodedText_FF :
    LinkParameter.passage.decodedText (queryEntries (passageUrl (some "passage=%FF")).query) =
      none := by
  decide

/-- A passage of that byte: where storing nil raises there is no dictionary, and where it removes
the key the dictionary has no passage. -/
theorem passage_lost :
    PassageLink (passageUrl (some "passage=%FF")) ∧
      dictionaryFromUrl .raises (passageUrl (some "passage=%FF")) = none ∧
      ¬ ∃ ret, dictionaryFromUrl .removes (passageUrl (some "passage=%FF")) = some ret ∧
        ∀ p : LinkParameter, (AList.lookup p.key ret).isSome := by
  have link := passageUrl_link (some "passage=%FF")
  refine ⟨link, ?_, ?_⟩
  · rw [dictionaryFromUrl_eq_store .raises link, storedParameters, storeParameters_cons]
    refine Option.bind_eq_none_iff.mpr fun ret _ => ?_
    rw [storeParameters_cons, decodedText_FF]
    rfl
  · rintro ⟨ret, hret, hkeys⟩
    have hpassage := hkeys .passage
    rw [(lookup_dictionaryFromUrl link hret).1, decodedText_FF] at hpassage
    cases hpassage

end ObjCSword
