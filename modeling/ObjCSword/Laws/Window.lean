import ObjCSword.Engine.Canon
import ObjCSword.Laws.Reading
import ObjCSword.Lib.Blocks

/-!
# Verses with their context

`textEntriesForReference:context:renderType:withBlock:` reads, for each verse of a reference, the
verses around it. It drives one verse key two ways in each turn: `setVerse` with a running number,
and then `increment`. The number counts from the chapter of the verse that was asked for, but
`setVerse` counts from the chapter the key is in by then, so the two part as soon as the key has
left that chapter.

Verses are named by their index in the canon. `right_iff` is about one turn: the key lands on the
verse the turn is meant for exactly when that verse is in the same chapter still, or is the very
last verse of the canon, where the engine holds a number that runs over the end. `window_iff` is the
law of the method: the windows returned are the right ones exactly when none of them needs more than
`WindowFits` allows.
-/

namespace ObjCSword

open Sword

/-! ## Verses by their index in the canon -/

namespace Sword.System

/-- The number of verses of the canon. -/
def verseCount (S : System) : Nat := S.chapters.sum

/-- The index of the first verse of the chapter of a verse. -/
def chapterStart (S : System) (i : Nat) : Nat := Lib.Blocks.start S.chapters i

/-- The number of verses of the chapter of a verse. -/
def versesInChapter (S : System) (i : Nat) : Nat := Lib.Blocks.length S.chapters i

/-- The number of a verse within its chapter, counted from one. -/
def verseNumber (S : System) (i : Nat) : Nat := i - S.chapterStart i + 1

/-- An index that may lie outside of the canon, held at its ends. -/
def hold (S : System) (i : Int) : Nat := min i.toNat (S.verseCount - 1)

theorem hold_of_lt (S : System) {i : Nat} (h : i < S.verseCount) : S.hold i = i := by
  rw [hold, Int.toNat_natCast]
  omega

end Sword.System

/-- What the method relies on in the engine's verse keys. `own` is the keys of the module's
versification `S`, `index` the verse a key stands on and `verseText` the text of a verse. `setVerse`
counts from the first verse of the key's chapter, and a number outside of the chapter carries on
into the chapters around it, as far as the canon goes; `increment` goes to the next verse. -/
structure VerseKeyLaws {Key : Type} (B : BibleModule Key) (S : System) (own : Key → Prop)
    (index : Key → Nat) (verseText : Nat → String) : Prop extends SwordBible.OwnKeys B own where
  own_setVerse : ∀ k v, own k → own (B.setVerse k v)
  own_increment : ∀ k, own k → own (B.increment k)
  index_setText : ∀ k i, own k → i < S.verseCount →
    index (B.setText k (some (verseText i))) = i
  getText : ∀ k, own k → B.getText k = verseText (index k)
  getVerse : ∀ k, own k → B.getVerse k = S.verseNumber (index k)
  index_setVerse : ∀ k v, own k →
    index (B.setVerse k v) = S.hold (S.chapterStart (index k) + v - 1)
  index_increment : ∀ k, own k → index (B.increment k) = S.hold (index k + 1)

/-- A verse's window lies in its chapter. It may begin with the last verse before the chapter, and
end with the first one after it where that is the last verse of the canon. -/
def WindowFits (S : System) (n i : Nat) : Prop :=
  n ≤ S.verseNumber i ∧
    (S.verseNumber i + n ≤ S.versesInChapter i ∨
      S.verseNumber i + n = S.versesInChapter i + 1 ∧
        S.chapterStart i + S.versesInChapter i + 1 = S.verseCount)

instance (S : System) (n i : Nat) : Decidable (WindowFits S n i) :=
  inferInstanceAs (Decidable (_ ∧ _))

namespace Window

/-! ## The walk of the verse key -/

/-- The verses the key of a context loop stands on when it is read, in so many turns, from the verse
`j` and the number `v`. -/
def walk (S : System) : Nat → Nat → Int → List Nat
  | 0, _, _ => []
  | turns + 1, j, v =>
    let g := S.hold (S.chapterStart j + v - 1)
    g :: walk S turns (S.hold (g + 1)) (v + 1)

theorem length_walk (S : System) (turns j : Nat) (v : Int) :
    (walk S turns j v).length = turns := by
  induction turns generalizing j v with
  | zero => rfl
  | succ turns ih => rw [walk, List.length_cons, ih]

theorem walk_lt {S : System} (h : 0 < S.verseCount) (turns j : Nat) (v : Int) :
    ∀ i ∈ walk S turns j v, i < S.verseCount := by
  induction turns generalizing j v with
  | zero => exact fun i hi => absurd hi List.not_mem_nil
  | succ turns ih =>
    intro i hi
    rw [walk, List.mem_cons] at hi
    rcases hi with rfl | hi
    · rw [System.hold]
      omega
    · exact ih _ _ i hi

/-- The turn meant for the verse `b` of a window around a verse of the chapter starting at `s` lands
on it, from a key that stands on `b` already. -/
def Right (S : System) (s b : Nat) : Prop := S.hold (S.chapterStart b + (b - s + 1 : Int) - 1) = b

/-- A walk that starts where it should returns the window exactly when each of its turns is
right. -/
theorem walk_eq_range_iff (S : System) (s turns a : Nat) (hroom : a + turns ≤ S.verseCount) :
    walk S turns a (a - s + 1 : Int) = List.range' a turns ↔
      ∀ b, a ≤ b → b < a + turns → Right S s b := by
  induction turns generalizing a with
  | zero =>
    refine ⟨fun _ b hlow hhigh => ?_, fun _ => rfl⟩
    omega
  | succ turns ih =>
    rw [walk, List.range'_succ, List.cons.injEq]
    constructor
    · rintro ⟨hfirst, hrest⟩ b hlow hhigh
      rw [hfirst] at hrest
      by_cases hb : b = a
      · rw [hb]
        exact hfirst
      · have hnext : S.hold ((a : Int) + 1) = a + 1 := S.hold_of_lt (i := a + 1) (by omega)
        have hv : (a - s + 1 + 1 : Int) = ((a + 1 : Nat) : Int) - s + 1 := by omega
        rw [hnext, hv] at hrest
        exact (ih (a + 1) (by omega)).mp hrest b (by omega) (by omega)
    · intro hright
      have hfirst : S.hold (S.chapterStart a + (a - s + 1 : Int) - 1) = a :=
        hright a (Nat.le_refl a) (by omega)
      refine ⟨hfirst, ?_⟩
      rw [hfirst]
      cases turns with
      | zero => rfl
      | succ turns =>
        have hnext : S.hold ((a : Int) + 1) = a + 1 := S.hold_of_lt (i := a + 1) (by omega)
        have hv : (a - s + 1 + 1 : Int) = ((a + 1 : Nat) : Int) - s + 1 := by omega
        rw [hnext, hv]
        exact (ih (a + 1) (by omega)).mpr fun b hlow hhigh => hright b (by omega) (by omega)

/-- **One turn.** It is right in the chapter it counts from, and on the canon's last verse when that
lies beyond it. -/
theorem right_iff (S : System) {s b : Nat} (hpos : 0 < b) (hb : b < S.verseCount) :
    Right S s b ↔ S.chapterStart b = s ∨ s < S.chapterStart b ∧ b + 1 = S.verseCount := by
  have hle : S.chapterStart b ≤ b := Lib.Blocks.start_le S.chapters b
  unfold Right System.hold
  omega

/-- The second turn of a window shows that it begins at most one verse before the chapter, and its
first turn beyond the chapter that this is the canon's last verse. -/
theorem fits_of_right {S : System} {n i : Nat} (hn : 0 < n) (hlow : n ≤ i)
    (hhigh : i + n < S.verseCount)
    (hright : ∀ b, i - n + 1 ≤ b → b < i - n + 1 + 2 * n → Right S (S.chapterStart i) b) :
    WindowFits S n i := by
  have hlt : i < S.chapterStart i + S.versesInChapter i :=
    Lib.Blocks.lt_start_add (show i < S.verseCount by omega)
  have hle : S.chapterStart i ≤ i := Lib.Blocks.start_le S.chapters i
  have hnumber : S.verseNumber i = i - S.chapterStart i + 1 := rfl
  have hsecond := (right_iff S (by omega) (by omega)).mp
    (hright (i - n + 1) (by omega) (by omega))
  have hbegin : S.chapterStart i ≤ i - n + 1 := by
    have hown : S.chapterStart (i - n + 1) ≤ S.chapterStart i :=
      Lib.Blocks.start_mono S.chapters (by omega)
    have hbelow : S.chapterStart (i - n + 1) ≤ i - n + 1 := Lib.Blocks.start_le S.chapters _
    omega
  refine ⟨by omega, ?_⟩
  by_cases hend : i + n < S.chapterStart i + S.versesInChapter i
  · exact Or.inl (by omega)
  · have hover : S.chapterStart i + S.versesInChapter i ≤
        S.chapterStart (S.chapterStart i + S.versesInChapter i) :=
      Lib.Blocks.end_le_start (Nat.le_refl _)
        (show S.chapterStart i + S.versesInChapter i < S.verseCount by omega)
    have hlast := (right_iff S (by omega) (by omega)).mp
      (hright (S.chapterStart i + S.versesInChapter i) (by omega) (by omega))
    exact Or.inr (by omega)

/-- In a window that fits every turn after the first is right. -/
theorem right_of_fits {S : System} {n i b : Nat} (hlow : n ≤ i) (hhigh : i + n < S.verseCount)
    (hfits : WindowFits S n i) (hb : i - n + 1 ≤ b) (hb' : b < i - n + 1 + 2 * n) :
    Right S (S.chapterStart i) b := by
  obtain ⟨hbegin, hend⟩ := hfits
  have hlt : i < S.chapterStart i + S.versesInChapter i :=
    Lib.Blocks.lt_start_add (show i < S.verseCount by omega)
  have hle : S.chapterStart i ≤ i := Lib.Blocks.start_le S.chapters i
  have hnumber : S.verseNumber i = i - S.chapterStart i + 1 := rfl
  refine (right_iff S (by omega) (by omega)).mpr ?_
  by_cases hin : b < S.chapterStart i + S.versesInChapter i
  · have hfrom : S.chapterStart i ≤ b := by omega
    exact Or.inl (Lib.Blocks.start_eq_of_mem hfrom hin)
  · have hover : S.chapterStart i + S.versesInChapter i ≤ S.chapterStart b :=
      Lib.Blocks.end_le_start (show S.chapterStart i + S.versesInChapter i ≤ b by omega)
        (show b < S.verseCount by omega)
    exact Or.inr (by omega)

/-- **A window is walked rightly exactly when it fits.** -/
theorem walk_iff_fits (S : System) {n i : Nat} (hn : 0 < n) (hlow : n ≤ i)
    (hhigh : i + n < S.verseCount) :
    walk S (2 * n + 1) i (S.verseNumber i - n : Int) = List.range' (i - n) (2 * n + 1) ↔
      WindowFits S n i := by
  have hle : S.chapterStart i ≤ i := Lib.Blocks.start_le S.chapters i
  have hnumber : S.verseNumber i = i - S.chapterStart i + 1 := rfl
  -- the first turn counts from the verse's own chapter and is right
  have hfirst : S.hold (S.chapterStart i + (S.verseNumber i - n : Int) - 1) = i - n := by
    unfold System.hold
    omega
  have hnext : S.hold (((i - n : Nat) : Int) + 1) = i - n + 1 :=
    S.hold_of_lt (i := i - n + 1) (by omega)
  have hv : (S.verseNumber i - n + 1 : Int) =
      ((i - n + 1 : Nat) : Int) - S.chapterStart i + 1 := by omega
  have hrest := walk_eq_range_iff S (S.chapterStart i) (2 * n) (i - n + 1) (by omega)
  rw [walk, hfirst, hnext, hv, List.range'_succ, List.cons.injEq, hrest]
  constructor
  · rintro ⟨-, hright⟩
    exact fits_of_right hn hlow hhigh hright
  · intro hfits
    exact ⟨rfl, fun b hb hb' => right_of_fits hlow hhigh hfits hb hb'⟩

/-! ## The loops of the method -/

section Loops

variable {Key β : Type} {B : BibleModule Key} {S : System} {own : Key → Prop} {index : Key → Nat}
  {verseText : Nat → String}

/-- The entry of the verse at an index. -/
def entryOf (B : BibleModule Key) (aType : RenderType) (verseText : Nat → String) (i : Nat) :
    Option SwordModuleTextEntry :=
  SwordBible.entryAt B aType (verseText i)

theorem contextTurn_reads (laws : VerseKeyLaws B S own index verseText) (aType : RenderType)
    (entryResult : β → SwordModuleTextEntry → β) (v : Int) (r : SwordBible.Reading Key β)
    (hown : own r.verseKey) :
    let g := S.hold (S.chapterStart (index r.verseKey) + v - 1)
    let r' := SwordBible.contextTurn B aType entryResult v r
    SwordBible.Reads entryResult r r' (entryOf B aType verseText g).toList ∧
      own r'.verseKey ∧ index r'.verseKey = S.hold (g + 1) := by
  have hset := laws.own_setVerse r.verseKey v hown
  have hread := SwordBible.addEntry_reads B aType entryResult
    { r with verseKey := B.setVerse r.verseKey v }
  have hkey := SwordBible.addEntry_verseKey B aType entryResult
    { r with verseKey := B.setVerse r.verseKey v }
  dsimp only at hread hkey ⊢
  rw [laws.getText _ hset, laws.index_setVerse _ _ hown] at hread
  refine ⟨⟨hread.ret, hread.block⟩, ?_, ?_⟩
  · rw [SwordBible.contextTurn, hkey]
    exact laws.own_increment _ hset
  · rw [SwordBible.contextTurn, hkey, laws.index_increment _ hset, laws.index_setVerse _ _ hown]

/-- The context loop reads what the verse key walks over. -/
theorem contextLoop_reads (laws : VerseKeyLaws B S own index verseText) (aType : RenderType)
    (entryResult : β → SwordModuleTextEntry → β) (turns : Nat) (v : Int)
    (r : SwordBible.Reading Key β) (hown : own r.verseKey) :
    let r' := SwordBible.contextLoop B aType entryResult turns v (v + turns - 1) r
    SwordBible.Reads entryResult r r'
        ((walk S turns (index r.verseKey) v).filterMap (entryOf B aType verseText)) ∧
      own r'.verseKey := by
  induction turns generalizing v r with
  | zero => exact ⟨SwordBible.Reads.refl entryResult r, hown⟩
  | succ turns ih =>
    obtain ⟨hread, hown', hindex⟩ := contextTurn_reads laws aType entryResult v r hown
    have hrest := ih (v + 1) (SwordBible.contextTurn B aType entryResult v r) hown'
    have hbound : (v + 1 + turns - 1 : Int) = v + (turns + 1 : Nat) - 1 := by omega
    have hturn : v ≤ v + ((turns + 1 : Nat) : Int) - 1 := by omega
    dsimp only at hrest ⊢
    rw [hbound, hindex] at hrest
    rw [SwordBible.contextLoop, if_pos hturn, walk, Lib.Lists.filterMap_eq_flatMap_toList,
      List.flatMap_cons, ← Lib.Lists.filterMap_eq_flatMap_toList]
    exact ⟨hread.trans hrest.1, hrest.2⟩

/-- One verse of the list, with `n` verses of context. -/
theorem readVerse_reads (laws : VerseKeyLaws B S own index verseText) (aType : RenderType)
    (entryResult : β → SwordModuleTextEntry → β) {n i : Nat} (hn : 0 < n)
    (hi : i < S.verseCount) (r : SwordBible.Reading Key β) (hown : own r.verseKey) :
    let r' := SwordBible.readVerse B n aType entryResult r (some (verseText i))
    SwordBible.Reads entryResult r r'
        ((walk S (2 * n + 1) i (S.verseNumber i - n : Int)).filterMap
          (entryOf B aType verseText)) ∧
      own r'.verseKey := by
  have hset := laws.own_setText r.verseKey (some (verseText i)) hown
  have hindex := laws.index_setText r.verseKey i hown hi
  have hloop := contextLoop_reads laws aType entryResult (2 * n + 1)
    (S.verseNumber i - n : Int)
    { r with verseKey := B.setText r.verseKey (some (verseText i)) } hset
  have hturns : ((n : Int) * 2 + 1).toNat = 2 * n + 1 := by omega
  have hhigh : (S.verseNumber i - n : Int) + n * 2 =
      S.verseNumber i - n + (2 * n + 1 : Nat) - 1 := by omega
  have hnonzero : (n : Int) ≠ 0 := by omega
  dsimp only at hloop ⊢
  rw [hindex] at hloop
  simp only [SwordBible.readVerse, SwordListKey.keyText, Option.getD_some]
  rw [if_pos hnonzero, laws.getVerse _ hset, hindex, hturns, hhigh]
  exact ⟨⟨hloop.1.ret, hloop.1.block⟩, hloop.2⟩

/-- The entries of verses that can be read tell which verses they are: the index is read back off an
entry by its key. -/
theorem filterMap_entryOf_inj (laws : VerseKeyLaws B S own index verseText) {aType : RenderType}
    (readable : ∀ i < S.verseCount, (entryOf B aType verseText i).isSome) {l l' : List Nat}
    (hl : ∀ i ∈ l, i < S.verseCount) (hl' : ∀ i ∈ l', i < S.verseCount) :
    l.filterMap (entryOf B aType verseText) = l'.filterMap (entryOf B aType verseText) ↔
      l = l' := by
  let indexOf : SwordModuleTextEntry → Nat := fun entry =>
    index (B.setText (B.setVersificationSystem B.init (SwordBible.versification B)) entry.key)
  have hback : ∀ l : List Nat, (∀ i ∈ l, i < S.verseCount) →
      ∀ i ∈ l, ∀ entry, entryOf B aType verseText i = some entry → indexOf entry = i := by
    intro l hl i hi entry hentry
    show index (B.setText _ entry.key) = i
    rw [SwordBible.key_of_entryAt hentry,
      laws.index_setText _ i (laws.own_setVersificationSystem _) (hl i hi)]
  have hkeep : ∀ l : List Nat, (∀ i ∈ l, i < S.verseCount) →
      l.filter (fun i => (entryOf B aType verseText i).isSome) = l :=
    fun l hl => List.filter_eq_self.mpr fun i hi => readable i (hl i hi)
  rw [Lib.Lists.filterMap_eq_iff _ indexOf (hback l hl) (hback l' hl'), hkeep l hl, hkeep l' hl']

theorem length_filterMap_entryOf {aType : RenderType}
    (readable : ∀ i < S.verseCount, (entryOf B aType verseText i).isSome) {l : List Nat}
    (hl : ∀ i ∈ l, i < S.verseCount) :
    (l.filterMap (entryOf B aType verseText)).length = l.length :=
  List.filterMap_length_eq_length.mpr fun i hi => readable i (hl i hi)

end Loops

end Window

/-! ## The method -/

namespace SwordBible

open Window

variable {Key β : Type}

/-- The entries of the verses from `n` before to `n` after each of the verses listed. -/
def windowEntries (B : BibleModule Key) (aType : RenderType) (verseText : Nat → String) (n : Nat)
    (verses : List Nat) : List SwordModuleTextEntry :=
  verses.flatMap fun i =>
    (List.range' (i - n) (2 * n + 1)).filterMap (entryOf B aType verseText)

/-- What the method returns: what the verse key walks over, verse after verse. -/
theorem textEntriesForReferenceInContext_walk {B : BibleModule Key} {S : System}
    {own : Key → Prop} {index : Key → Nat} {verseText : Nat → String}
    (laws : VerseKeyLaws B S own index verseText) (aType : RenderType)
    (entryResult : β → SwordModuleTextEntry → β) (block : β) (m : ModuleState Key)
    {aReference : Option String} (verses : List Nat)
    (hverses : versesOf B aReference = verses.map verseText) {n : Nat} (hn : 0 < n)
    (hcanon : ∀ i ∈ verses, i < S.verseCount) :
    let out := textEntriesForReferenceInContext B aReference n aType entryResult block m
    let entries := verses.flatMap fun i =>
      (walk S (2 * n + 1) i (S.verseNumber i - n : Int)).filterMap (entryOf B aType verseText)
    out.1 = entries ∧ out.2.1 = entries.foldl entryResult block := by
  have hstart := own_startOf laws.toOwnKeys aReference block m
  have hall := foldl_reads own verseText
    (fun i hi r hr => readVerse_reads laws aType entryResult hn (hcanon i hi) r hr)
    (startOf B aReference block m) hstart
  dsimp only
  rw [textEntriesForReferenceInContext_eq, hverses]
  exact ⟨hall.ret, hall.block⟩

/-- One window: the walk reads as many entries as there are in the window, and the same ones exactly
when the window fits. -/
theorem one_window {B : BibleModule Key} {S : System} {own : Key → Prop} {index : Key → Nat}
    {verseText : Nat → String} (laws : VerseKeyLaws B S own index verseText) {aType : RenderType}
    (readable : ∀ i < S.verseCount, (entryAt B aType (verseText i)).isSome) {n i : Nat}
    (hn : 0 < n) (hlow : n ≤ i) (hhigh : i + n < S.verseCount) :
    ((walk S (2 * n + 1) i (S.verseNumber i - n : Int)).filterMap
        (entryOf B aType verseText)).length =
      ((List.range' (i - n) (2 * n + 1)).filterMap (entryOf B aType verseText)).length ∧
    ((walk S (2 * n + 1) i (S.verseNumber i - n : Int)).filterMap (entryOf B aType verseText) =
      (List.range' (i - n) (2 * n + 1)).filterMap (entryOf B aType verseText) ↔
        WindowFits S n i) := by
  have hcount : 0 < S.verseCount := by omega
  have hwalk : ∀ j ∈ walk S (2 * n + 1) i (S.verseNumber i - n : Int), j < S.verseCount :=
    walk_lt hcount _ _ _
  have hrange : ∀ j ∈ List.range' (i - n) (2 * n + 1), j < S.verseCount := by
    intro j hj
    obtain ⟨-, hj⟩ := List.mem_range'_1.mp hj
    omega
  constructor
  · rw [length_filterMap_entryOf readable hwalk, length_filterMap_entryOf readable hrange,
      length_walk, List.length_range']
  · rw [filterMap_entryOf_inj laws readable hwalk hrange]
    exact walk_iff_fits S hn hlow hhigh

/-- **The windows are right exactly when they fit**: the method returns the `2n + 1` verses around
each verse of the reference, and shows them to the block, if and only if each of the windows lies in
the chapter of its verse, but for one verse before it, and one after it that ends the canon. -/
theorem window_iff {B : BibleModule Key} {S : System} {own : Key → Prop} {index : Key → Nat}
    {verseText : Nat → String} (laws : VerseKeyLaws B S own index verseText) (aType : RenderType)
    (readable : ∀ i < S.verseCount, (entryAt B aType (verseText i)).isSome)
    (entryResult : β → SwordModuleTextEntry → β) (block : β) (m : ModuleState Key)
    {aReference : Option String} (verses : List Nat)
    (hverses : versesOf B aReference = verses.map verseText) {n : Nat} (hn : 0 < n)
    (hroom : ∀ i ∈ verses, n ≤ i ∧ i + n < S.verseCount) :
    let out := textEntriesForReferenceInContext B aReference n aType entryResult block m
    let entries := windowEntries B aType verseText n verses
    (out.1 = entries ∧ out.2.1 = entries.foldl entryResult block) ↔
      ∀ i ∈ verses, WindowFits S n i := by
  have hcanon : ∀ i ∈ verses, i < S.verseCount := fun i hi => by
    have := (hroom i hi).2
    omega
  obtain ⟨hret, hblock⟩ := textEntriesForReferenceInContext_walk laws aType entryResult block m
    verses hverses hn hcanon
  have hwindow := fun i hi => one_window laws readable hn (hroom i hi).1 (hroom i hi).2
  have hentries := Lib.Lists.flatMap_eq_iff fun i hi => (hwindow i hi).1
  dsimp only at hret hblock ⊢
  rw [hret, hblock]
  constructor
  · rintro ⟨h, -⟩ i hi
    exact (hwindow i hi).2.mp (hentries.mp h i hi)
  · intro hfits
    have h := hentries.mpr fun i hi => (hwindow i hi).2.mpr (hfits i hi)
    exact ⟨h, congrArg (List.foldl entryResult block) h⟩

/-! ## An engine that meets the laws -/

/-- A Bible whose keys are indices into a canon with the given verse texts, and which parses
references with `parse`: the verse key of one versification and nothing else. -/
def indexBible (S : System) (texts : List String) (parse : Option String → List String) :
    BibleModule Nat where
  setText k text := (text.bind fun text => texts.findIdx? (· == text)).getD k
  getText k := texts.getD k ""
  init := 0
  setVersificationSystem k _ := k
  setIntros k _ := k
  getTestament _ := 1
  getBook _ := 1
  getVerse k := S.verseNumber k
  setTestament k _ := k
  setBook k _ := k
  setChapter k _ := k
  setVerse k v := S.hold (S.chapterStart k + v - 1)
  increment k := S.hold (k + 1)
  parseVerseList _ ref _ _ := parse ref
  createKey := 0
  error _ := false
  renderText k := texts[k]?
  stripText k := texts[k]?
  entryAttributes _ := ∅
  getConfigEntry _ := none
  has _ _ := false
  globalOption _ := false

/-- The laws ask for nothing that an engine cannot do: they hold of this one for every canon whose
verses have texts of their own. -/
theorem indexBible_laws (S : System) {texts : List String} (hlength : texts.length = S.verseCount)
    (hnodup : texts.Nodup) (parse : Option String → List String) :
    VerseKeyLaws (indexBible S texts parse) S (fun _ => True) (fun k => k)
      (fun i => texts.getD i "") where
  own_setVersificationSystem _ := trivial
  own_setText _ _ _ := trivial
  own_setVerse _ _ _ := trivial
  own_increment _ _ := trivial
  index_setText k i _ hi := by
    have hlt : i < texts.length := by omega
    have hfind : texts.findIdx? (· == texts[i]) = some i := by
      refine List.findIdx?_eq_some_iff_getElem.mpr ⟨hlt, beq_self_eq_true _, fun j hj => ?_⟩
      have hne : texts[j] ≠ texts[i] := fun h =>
        absurd ((List.Nodup.getElem_inj_iff hnodup).mp h) (by omega)
      simpa using hne
    show ((some (texts.getD i "")).bind fun text => texts.findIdx? (· == text)).getD k = i
    rw [List.getD_eq_getElem?_getD, List.getElem?_eq_getElem hlt, Option.getD_some,
      Option.bind_some, hfind, Option.getD_some]
  getText _ _ := rfl
  getVerse _ _ := rfl
  index_setVerse _ _ _ := rfl
  index_increment _ _ := rfl

/-- Two books, of two chapters and of one, each chapter of three verses. -/
def twoBooks : System :=
  .ofOldTestament
    [{ longName := "Genesis", osisName := "Gen", verseMax := [3, 3], verseMax_pos := by decide },
      { longName := "Exodus", osisName := "Exod", verseMax := [3], verseMax_pos := by decide }]
    (by decide)

def twoBooksTexts : List String :=
  ["Genesis 1:1", "Genesis 1:2", "Genesis 1:3", "Genesis 2:1", "Genesis 2:2", "Genesis 2:3",
    "Exodus 1:1", "Exodus 1:2", "Exodus 1:3"]

/-- A Bible on the two books whose references name one verse. -/
def twoBooksBible : BibleModule Nat := indexBible twoBooks twoBooksTexts Option.toList

/-- The window of a verse in the middle of a chapter. -/
theorem window_iff_genesis_2_2 :
    (textEntriesForReferenceInContext twoBooksBible (some "Genesis 2:2") 1 .rendered
      (fun seen entry => seen ++ [entry]) [] ⟨0, false, ∅⟩).1 =
        windowEntries twoBooksBible .rendered (fun i => twoBooksTexts.getD i "") 1 [4] :=
  ((window_iff (indexBible_laws twoBooks (by decide) (by decide) Option.toList) .rendered
    (by decide) (fun seen entry => seen ++ [entry]) [] ⟨0, false, ∅⟩ [4] (by decide)
    (by decide) (by decide)).mpr (by decide)).1

/-- At the end of a chapter it is wrong: the verse after Genesis 1:3 is 2:1, and the method returns
Exodus 1:1. -/
theorem window_leaves_chapter :
    VerseKeyLaws twoBooksBible twoBooks (fun _ => True) (fun k => k)
        (fun i => twoBooksTexts.getD i "") ∧
      (∀ i < twoBooks.verseCount,
        (entryAt twoBooksBible .rendered (twoBooksTexts.getD i "")).isSome) ∧
      versesOf twoBooksBible (some "Genesis 1:3") = [2].map (fun i => twoBooksTexts.getD i "") ∧
      (1 ≤ 2 ∧ 2 + 1 < twoBooks.verseCount) ∧
      (textEntriesForReferenceInContext twoBooksBible (some "Genesis 1:3") 1 .rendered
        (fun seen entry => seen ++ [entry]) [] ⟨0, false, ∅⟩).1.map (·.text) =
          ["Genesis 1:2", "Genesis 1:3", "Exodus 1:1"] ∧
      (textEntriesForReferenceInContext twoBooksBible (some "Genesis 1:3") 1 .rendered
        (fun seen entry => seen ++ [entry]) [] ⟨0, false, ∅⟩).1 ≠
          windowEntries twoBooksBible .rendered (fun i => twoBooksTexts.getD i "") 1 [2] :=
  ⟨indexBible_laws twoBooks (by decide) (by decide) Option.toList, by decide, by decide,
    by decide, by decide, by decide⟩

end SwordBible

end ObjCSword
