import ObjCSword.SwordBook
import ObjCSword.SwordDictionary

/-!
# The encodings of key texts

A key that was listed can be looked up if the text it is turned back into is the text it was read
from. A book reads key texts by their bytes, as UTF-8 wherever that is possible, and writes them by
its module's flag; a dictionary reads them by the flag and always writes UTF-8. Both agree on ASCII,
and what else they agree on is said here, for every text of either encoding.
-/

namespace ObjCSword

open Sword NSString Lib.Percent Lib.Ascii

variable {Key : Type}

/-! ## Reading and writing a text -/

/-- Latin 1 and UTF-8 write the same bytes for ASCII texts only. -/
theorem cStringUsingLatin1_eq_UTF8String_iff (s : String) :
    cStringUsingLatin1 s = some (UTF8String s) ↔ IsAscii s.toList := by
  rw [cStringUsingLatin1_eq_some_iff]
  constructor
  · rintro ⟨-, hbytes⟩
    have hlength := congrArg List.length hbytes
    rw [List.length_map] at hlength
    exact (byteLength_eq_length_iff s.toList).mp hlength
  · intro hascii
    exact ⟨fun c hc => Nat.lt_trans (hascii c hc) (by decide), utf8_of_isAscii hascii⟩

/-! ## Books -/

namespace SwordBook

/-- The texts of a key and the siblings behind it. -/
def textsFrom (T : TreeModule Key) : Nat → Key → List CString
  | 0, _ => []
  | fuel + 1, treeKey =>
    let (more, next) := T.nextSibling treeKey
    T.getText treeKey :: if more then textsFrom T fuel next else []

/-- The paths of the children of a node. -/
def pathsOfChildren (T : TreeModule Key) (fuel : Nat) (treeKey : Key) : List CString :=
  if T.hasChildren treeKey then textsFrom T fuel (T.firstChild treeKey) else []

theorem siblings_fst (T : TreeModule Key) (fuel : Nat) (treeKey : Key) (c : List String) :
    (siblings T fuel treeKey c).1 = c ++ (textsFrom T fuel treeKey).map stringOfKeyText := by
  induction fuel generalizing treeKey c with
  | zero => exact (List.append_nil c).symm
  | succ fuel ih =>
    rw [siblings, textsFrom]
    dsimp only
    split
    · rw [ih, List.append_assoc, List.map_cons, List.singleton_append]
    · rfl

/-- The keys an entry lists are the paths of the children, read. -/
theorem content_entryForTreeKey (T : TreeModule Key) (fuel : Nat) (treeKey : Key) :
    (entryForTreeKey T fuel treeKey).1.content =
      (pathsOfChildren T fuel treeKey).map stringOfKeyText := by
  rw [entryForTreeKey, pathsOfChildren]
  dsimp only
  split
  · exact siblings_fst T fuel _ []
  · rfl

/-- A path that a module's encoding gives back: in a Unicode module UTF-8, in any other what is no
UTF-8, or ASCII. -/
def GivenBack (T : TreeModule Key) (path : CString) : Prop :=
  T.isUnicode = true ∧ stringWithUTF8String path ≠ none ∨
    T.isUnicode = false ∧ (stringWithUTF8String path = none ∨ ∀ b ∈ path, b.toNat < 128)

theorem keyStr_stringOfKeyText_iff (T : TreeModule Key) (path : CString) :
    keyStr T (stringOfKeyText path) = some path ↔ GivenBack T path := by
  rw [keyStr, GivenBack, stringOfKeyText]
  cases hread : stringWithUTF8String path with
  | none =>
    rw [Option.getD_none, cStringUsingLatin1_stringWithLatin1]
    have hnot : UTF8String (stringWithLatin1 path) ≠ path := by
      intro h
      have hself := stringWithUTF8String_UTF8String (stringWithLatin1 path)
      rw [h, hread] at hself
      cases hself
    cases T.isUnicode with
    | true => simp [hnot]
    | false => simp
  | some s =>
    have hpath := UTF8String_of_stringWithUTF8String hread
    have hascii : (∀ b ∈ path, b.toNat < 128) ↔ IsAscii s.toList := by
      rw [← hpath]
      exact ascii_bytes_iff s.toList
    rw [Option.getD_some, hascii, ← cStringUsingLatin1_eq_UTF8String_iff, hpath]
    cases T.isUnicode with
    | true => simp
    | false => simp

/-- Whichever way a text is read, an ASCII character is as often in it as its byte is. -/
theorem count_stringOfKeyText (text : CString) {ascii : Char} (h : ascii.toNat < 128) :
    (stringOfKeyText text).toList.count ascii = text.count (UInt8.ofNat ascii.toNat) := by
  rw [stringOfKeyText]
  cases hread : stringWithUTF8String text with
  | some s =>
    rw [Option.getD_some, ← count_utf8 _ h]
    exact congrArg (List.count _) (UTF8String_of_stringWithUTF8String hread)
  | none =>
    rw [Option.getD_none, toList_stringWithLatin1, List.count, List.countP_map, List.count]
    refine List.countP_congr fun b _ => ?_
    simp only [Function.comp_apply, beq_iff_eq]
    rw [← Char.toNat_inj, toNat_latin1, ← UInt8.toNat_inj, UInt8.toNat_ofNat']
    omega

/-- **The keys that an entry lists are turned back into the paths of the children** exactly where
the module's encoding gives each of these back. -/
theorem entryForTreeKey_keys_iff (T : TreeModule Key) (fuel : Nat) (treeKey : Key) :
    (entryForTreeKey T fuel treeKey).1.content.map (keyStr T) =
        (pathsOfChildren T fuel treeKey).map some ↔
      ∀ path ∈ pathsOfChildren T fuel treeKey, GivenBack T path := by
  rw [content_entryForTreeKey, List.map_map, List.map_inj_left]
  simp only [Function.comp_apply, keyStr_stringOfKeyText_iff]

/-- A book of one chapter, whose path is given: the key is whether it stands there. -/
def chapterBook (isUnicode : Bool) (path : CString) : TreeModule Bool where
  isUnicode := isUnicode
  setKey _ text := text = some path
  getText atChapter := if atChapter then path else []
  hasChildren atChapter := !atChapter
  firstChild _ := true
  nextSibling atChapter := (false, atChapter)

/-- The two Latin 1 letters of this path are read as one letter, and that is written as one byte. -/
theorem listed_key_changed :
    pathsOfChildren (chapterBook false [0x2F, 0xC3, 0xA9]) 1 false = [[0x2F, 0xC3, 0xA9]] ∧
      (entryForTreeKey (chapterBook false [0x2F, 0xC3, 0xA9]) 1 false).1.content = ["/é"] ∧
      keyStr (chapterBook false [0x2F, 0xC3, 0xA9]) "/é" = some [0x2F, 0xE9] := by
  have hread : stringWithUTF8String [0x2F, 0xC3, 0xA9] = some "/é" :=
    stringWithUTF8String_UTF8String "/é"
  refine ⟨rfl, ?_, rfl⟩
  rw [content_entryForTreeKey]
  show [stringOfKeyText [0x2F, 0xC3, 0xA9]] = ["/é"]
  rw [stringOfKeyText, hread, Option.getD_some]

end SwordBook

/-! ## Dictionaries -/

namespace SwordDictionary

theorem isAscii_stringWithLatin1_iff (text : CString) :
    IsAscii (stringWithLatin1 text).toList ↔ ∀ b ∈ text, b.toNat < 128 := by
  rw [IsAscii, toList_stringWithLatin1, List.forall_mem_map]
  simp only [toNat_latin1]

/-- ASCII text has the UTF-8 that it was read from as Latin 1. -/
theorem UTF8String_stringWithLatin1 {text : CString} (h : ∀ b ∈ text, b.toNat < 128) :
    UTF8String (stringWithLatin1 text) = text := by
  have hwritten := (cStringUsingLatin1_eq_UTF8String_iff (stringWithLatin1 text)).mpr
    ((isAscii_stringWithLatin1_iff text).mpr h)
  rw [cStringUsingLatin1_stringWithLatin1] at hwritten
  exact (Option.some.inj hwritten).symm

/-- A letter beyond ASCII takes more bytes in UTF-8 than in Latin 1, so a text has as many in both
exactly when it is ASCII. -/
theorem length_UTF8String_stringWithLatin1_iff (text : CString) :
    (UTF8String (stringWithLatin1 text)).length = text.length ↔ ∀ b ∈ text, b.toNat < 128 := by
  have hletters : (stringWithLatin1 text).toList.length = text.length := by
    rw [toList_stringWithLatin1, List.length_map]
  rw [← isAscii_stringWithLatin1_iff, ← byteLength_eq_length_iff, hletters]
  rfl

/-- The small letter of a Latin 1 letter. -/
def latin1Lower (b : UInt8) : UInt8 :=
  if 0x41 ≤ b ∧ b ≤ 0x5A ∨ 0xC0 ≤ b ∧ b ≤ 0xDE ∧ b ≠ 0xD7 then b + 0x20 else b

/-- What is relied on of `capitalizedString`, for the relation of texts that differ in letter case:
it changes nothing else, on ASCII texts it is the change of ASCII letters, and a capital of a Latin
1 letter takes as many bytes in UTF-8 as the letter does. -/
structure ChangesCase (SameLetters : String → String → Prop)
    (capitalizedString : String → String) : Prop where
  sameLetters : ∀ s, SameLetters (capitalizedString s) s
  ascii : ∀ s, IsAscii s.toList →
    (UTF8String (capitalizedString s)).map latin1Lower = (UTF8String s).map latin1Lower
  length_latin1 : ∀ s, (∀ c ∈ s.toList, c.toNat < 256) →
    (UTF8String (capitalizedString s)).length = (UTF8String s).length

/-- A key text that spells another in a module's encoding, up to letter case. -/
def Spells (SameLetters : String → String → Prop) (isUnicode : Bool) (position k : CString) : Prop :=
  if isUnicode then
    ∃ positionText keyText, stringWithUTF8String position = some positionText ∧
      stringWithUTF8String k = some keyText ∧ SameLetters positionText keyText
  else position.map latin1Lower = k.map latin1Lower

/-- What is listed for a key is its text, capitalised. -/
theorem exists_keyText {capitalizedString : String → String} {isUnicode : Bool} {k : CString}
    {listed : String} (h : addKey capitalizedString isUnicode [] (some k) = [listed]) :
    ∃ keyText, lexiconString isUnicode k = some keyText ∧ listed = capitalizedString keyText := by
  rw [addKey, Option.bind_some] at h
  cases hread : lexiconString isUnicode k with
  | none => rw [hread] at h; cases h
  | some keyText =>
    rw [hread] at h
    cases h
    exact ⟨keyText, rfl, rfl⟩

/-- **A listed key is looked up under a text that spells it** exactly where the module is Unicode,
or the key is ASCII. -/
theorem entryForKey_spells_iff {SameLetters : String → String → Prop}
    {capitalizedString : String → String} (hcase : ChangesCase SameLetters capitalizedString)
    (aModule : Lexicon) (swModule : LexiconText) {k : CString} {listed : String}
    (hlisted : addKey capitalizedString aModule.isUnicode [] (some k) = [listed]) :
    (∃ position, (entryForKey swModule (some listed)).2 = some position ∧
        Spells SameLetters aModule.isUnicode position k) ↔
      aModule.isUnicode = true ∨ ∀ b ∈ k, b.toNat < 128 := by
  obtain ⟨keyText, hread, rfl⟩ := exists_keyText hlisted
  have hposition : (entryForKey swModule (some (capitalizedString keyText))).2 =
      some (UTF8String (capitalizedString keyText)) := by
    rw [entryForKey]
    split
    · rfl
    · rfl
  simp only [hposition, Option.some.injEq, exists_eq_left']
  cases hunicode : aModule.isUnicode with
  | true =>
    rw [hunicode] at hread
    exact iff_of_true
      ⟨_, keyText, stringWithUTF8String_UTF8String _, hread, hcase.sameLetters keyText⟩
      (Or.inl rfl)
  | false =>
    rw [hunicode] at hread
    obtain rfl : stringWithLatin1 k = keyText := Option.some.inj hread
    have hlength := hcase.length_latin1 (stringWithLatin1 k) (lt_of_mem_stringWithLatin1 k)
    simp only [Spells, Bool.false_eq_true, if_false, false_or]
    constructor
    · intro hspells
      have hsame := congrArg List.length hspells
      rw [List.length_map, List.length_map, hlength] at hsame
      exact (length_UTF8String_stringWithLatin1_iff k).mp hsame
    · intro hascii
      have hcapital := hcase.ascii _ ((isAscii_stringWithLatin1_iff k).mpr hascii)
      rw [hcapital, UTF8String_stringWithLatin1 hascii]

/-- On texts that are capitalised, capitalising does nothing. -/
theorem changesCase_id : ChangesCase Eq id :=
  ⟨fun _ => rfl, fun _ _ => rfl, fun _ _ => rfl⟩

/-- A module whose every key has a text. -/
def anyText : LexiconText := ⟨fun _ => false, fun _ => some ""⟩

/-- The key `Abel` of a Latin 1 module is looked up under its own text. -/
theorem entryForKey_spells_abel :
    ∃ position, (entryForKey anyText (some "Abel")).2 = some position ∧
      Spells Eq false position [0x41, 0x62, 0x65, 0x6C] :=
  (entryForKey_spells_iff changesCase_id ⟨false, [[0x41, 0x62, 0x65, 0x6C]]⟩ anyText
    (by decide)).mpr (Or.inr (by simp))

/-- The key `Éden` of a Latin 1 module, one byte a letter, is looked up under a text of five
bytes. -/
theorem entryForKey_eden :
    addKey id false [] (some [0xC9, 0x64, 0x65, 0x6E]) = ["Éden"] ∧
      (entryForKey anyText (some "Éden")).2 = some [0xC3, 0x89, 0x64, 0x65, 0x6E] ∧
      ¬ Spells Eq false [0xC3, 0x89, 0x64, 0x65, 0x6E] [0xC9, 0x64, 0x65, 0x6E] := by
  refine ⟨rfl, rfl, ?_⟩
  rw [Spells, if_neg Bool.false_ne_true]
  decide

end SwordDictionary

end ObjCSword
