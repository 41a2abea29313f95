import ObjCSword.Laws.Links
import ObjCSword.SwordDictionary

/-!
# Links into dictionaries

A dictionary takes the value of a link as `dictionaryFromUrl:` has decoded it, where any other
module decodes it once more. So what it looks up may hold a `+` and a percent sign, but a space of
the value is a `+` still (`dictionary_link_iff`).
-/

namespace ObjCSword.SwordDictionary

open Sword NSString

/-- A prefix without spaces and `+` is the same before and after spaces are written as `+`. -/
theorem isPrefixOf_plussed {lead : List Char} (hspace : ' ' ∉ lead) (hplus : '+' ∉ lead)
    (s : List Char) : lead.isPrefixOf (plussed s) = lead.isPrefixOf s := by
  induction lead generalizing s with
  | nil => rw [List.isPrefixOf_nil_left, List.isPrefixOf_nil_left]
  | cons d lead ih =>
    rw [List.mem_cons, not_or] at hspace hplus
    cases s with
    | nil => rfl
    | cons c s =>
      have hhead : (d == if c = ' ' then '+' else c) = (d == c) := by
        by_cases hc : c = ' '
        · rw [if_pos hc, hc, beq_eq_false_iff_ne.mpr (Ne.symm hplus.1),
            beq_eq_false_iff_ne.mpr (Ne.symm hspace.1)]
        · rw [if_neg hc]
      show ((d == if c = ' ' then '+' else c) && lead.isPrefixOf (plussed s)) =
        ((d == c) && lead.isPrefixOf s)
      rw [hhead, ih hspace.2 hplus.2]

theorem space_not_mem_plussed (s : List Char) : ' ' ∉ plussed s := by
  intro hmem
  obtain ⟨c, -, hc⟩ := List.mem_map.mp hmem
  by_cases h : c = ' '
  · rw [if_pos h] at hc
    exact absurd hc (by decide)
  · rw [if_neg h] at hc
    exact h hc

theorem plussed_eq_self_iff (s : List Char) : plussed s = s ↔ ' ' ∉ s := by
  constructor
  · intro h
    rw [← h]
    exact space_not_mem_plussed s
  · intro h
    have hkeep : ∀ c ∈ s, (if c = ' ' then '+' else c) = c :=
      fun c hc => if_neg fun heq : c = ' ' => h (heq ▸ hc)
    rw [plussed, List.map_congr_left hkeep, List.map_id']

theorem hasPrefix_plussed {lead : String} (hspace : ' ' ∉ lead.toList) (hplus : '+' ∉ lead.toList)
    (s : String) : hasPrefix (.ofList (plussed s.toList)) lead = hasPrefix s lead := by
  rw [hasPrefix, hasPrefix, String.toList_ofList, isPrefixOf_plussed hspace hplus]

/-- A type that names an entry still does when it was read from a link. -/
theorem namesEntry_plussed {attrType : String} (h : namesEntry attrType = true) :
    namesEntry (.ofList (plussed attrType.toList)) = true := by
  simp only [namesEntry, Bool.or_eq_true, decide_eq_true_eq] at h ⊢
  rw [hasPrefix_plussed (by decide) (by decide), hasPrefix_plussed (by decide) (by decide)]
  rcases h with ((((rfl | rfl) | rfl) | rfl) | hmorph) | hrobinson
  · exact Or.inl (Or.inl (Or.inl (Or.inl (Or.inl (by decide)))))
  · exact Or.inl (Or.inl (Or.inl (Or.inl (Or.inr (by decide)))))
  · exact Or.inl (Or.inl (Or.inl (Or.inr (by decide))))
  · exact Or.inl (Or.inl (Or.inr (by decide)))
  · exact Or.inl (Or.inr hmorph)
  · exact Or.inr hrobinson

/-- A link of such a type looks up what the dictionary of the link holds as its value. -/
theorem attributeValue_entry {Key : Type} {self : TextEntries Key} {data : Dictionary String}
    {attrType : String} (htype : AList.lookup ATTRTYPE_TYPE data = some attrType)
    (hentry : namesEntry attrType = true) (textType : RenderType) (m : ModuleState Key) :
    attributeValueForParsedLinkData self data textType m =
      SwordModule.referenceLookup self .stripped (AList.lookup ATTRTYPE_VALUE data) m := by
  have hany : (AList.lookup ATTRTYPE_TYPE data).any namesEntry = true := by
    rw [htype]
    exact hentry
  rw [attributeValueForParsedLinkData, if_pos hany]
  rfl

/-- **A link into a dictionary looks its value up exactly when that holds no space.** The link is
any one whose parameters are form encoded, of a type that names an entry; with a space in the value
it is another key that the dictionary is asked for. -/
theorem dictionary_link_iff (nil : NilStore) {aURL : NSURL} {params : List Parameter}
    (link : FormLink aURL params) {attrType value : String}
    (htype : given "type" params = some attrType) (hentry : namesEntry attrType = true)
    (hvalue : given "value" params = some value) :
    (∃ data, SwordUtil.dictionaryFromUrl nil aURL = some data ∧
        ∀ {Key : Type} (self : TextEntries Key) (textType : RenderType) (m : ModuleState Key),
          attributeValueForParsedLinkData self data textType m =
            SwordModule.referenceLookup self .stripped (some value) m) ↔ ' ' ∉ value.toList := by
  obtain ⟨data, hdata, hreadType, -, hreadValue⟩ :=
    dictionaryFromUrl_form nil link (given_ne_nil htype)
  rw [readValue, htype] at hreadType
  rw [readValue, hvalue] at hreadValue
  have hlook : ∀ {Key : Type} (self : TextEntries Key) (textType : RenderType)
      (m : ModuleState Key), attributeValueForParsedLinkData self data textType m =
        SwordModule.referenceLookup self .stripped (some (.ofList (plussed value.toList))) m := by
    intro Key self textType m
    rw [attributeValue_entry hreadType (namesEntry_plussed hentry), hreadValue]
  have hsame : String.ofList (plussed value.toList) = value ↔ ' ' ∉ value.toList := by
    rw [← String.toList_inj, String.toList_ofList, plussed_eq_self_iff]
  rw [← hsame]
  constructor
  · rintro ⟨data', hdata', hall⟩
    obtain rfl : data = data' := Option.some.inj (hdata.symm.trans hdata')
    -- the spies tell which key they were asked for
    have hspy := hall spyEntries .stripped ⟨none, false, ∅⟩
    rw [hlook] at hspy
    exact Option.some.inj (referenceLookup_inj hspy)
  · intro heq
    refine ⟨data, hdata, fun self textType m => ?_⟩
    rw [hlook, heq]

theorem plain_action : "action".toList.all unreserved = true := by decide
theorem plain_type : "type".toList.all unreserved = true := by decide
theorem plain_value : "value".toList.all unreserved = true := by decide

/-- What a link on a word form gives. -/
def robinsonParameters : List Parameter :=
  [⟨"action", "showMorph", plain_action⟩, ⟨"type", "robinson:V-AAI-3S", plain_type⟩,
    ⟨"value", "V-AAI-3S", plain_value⟩]

/-- The code of the form is looked up. -/
theorem dictionary_link_robinson :
    ∃ data, SwordUtil.dictionaryFromUrl .raises (jspUrl robinsonParameters) = some data ∧
      ∀ {Key : Type} (self : TextEntries Key) (textType : RenderType) (m : ModuleState Key),
        attributeValueForParsedLinkData self data textType m =
          SwordModule.referenceLookup self .stripped (some "V-AAI-3S") m :=
  (dictionary_link_iff .raises (jspUrl_link robinsonParameters)
    (by decide : given "type" robinsonParameters = some "robinson:V-AAI-3S") (by decide)
    (by decide : given "value" robinsonParameters = some "V-AAI-3S")).mpr (by decide)

end ObjCSword.SwordDictionary
