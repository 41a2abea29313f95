import ObjCSword.Lib.Run
import ObjCSword.Lib.RoseTree
import ObjCSword.Laws.KeyEncodings

/-!
# The entries of a book's tree

`treeEntryForKey:` reads the tree through the module's one key and keeps what it read. For a path it
first puts the key on the node, if the string that was listed for the path is turned back into its
bytes; for `nil`, the root, it does not, and takes the node on which the key happens to stand. Each
call leaves the key on a child it walked to last.

The invariant of a run is `Kept`: what is kept for the root is right, and what is kept under a path
is read at the node which the module finds under it. It survives every call for the root that reads
the root, so under it one call is right exactly when the node it reads is (`right_iff`). Over whole
runs this comes down to the order of the calls and the encoding of their paths:
`entries_right_iff`.
-/

namespace ObjCSword

open Sword Lib NSString

namespace SwordBook

variable {Key : Type}

/-! ## A book's tree -/

/-- The full path of a node: each name on the way down to it after a slash. The root's is empty. -/
def treePath : RoseTree CString → List Nat → CString
  | _, [] => []
  | t, i :: a =>
    match t.children[i]? with
    | some child => 0x2f :: (child.label ++ treePath child a)
    | none => []

/-- The full path as the wrapper hands it out. -/
def fullPath (t : RoseTree CString) (a : List Nat) : String := stringOfKeyText (treePath t a)

/-- The full paths of a node's children, in their order. -/
def childPaths (t : RoseTree CString) (a : List Nat) : List String :=
  (List.range (t.childCount a)).map fun i => fullPath t (a ++ [i])

/-- What the wrapper relies on in the module and its key, for a book with the tree `t`. `place` is
the node a key stands on, and `found` the node on which a text puts it: the node of that path, and
for a text that is no node's path whichever the engine chooses. -/
structure TreeLaws (T : TreeModule Key) (t : RoseTree CString) (place : Key → List Nat)
    (found : Option CString → List Nat) : Prop where
  valid : ∀ k, t.Valid (place k)
  setKey : ∀ k text, place (T.setKey k text) = found text
  found_treePath : ∀ a, t.Valid a → found (some (treePath t a)) = a
  getText : ∀ k, T.getText k = treePath t (place k)
  hasChildren : ∀ k, T.hasChildren k = decide (0 < t.childCount (place k))
  firstChild : ∀ k, 0 < t.childCount (place k) → place (T.firstChild k) = place k ++ [0]
  nextSibling : ∀ k a i, place k = a ++ [i] →
    ((T.nextSibling k).1 = decide (i + 1 < t.childCount a)) ∧
      place (T.nextSibling k).2 = if i + 1 < t.childCount a then a ++ [i + 1] else a ++ [i]

section Entries

variable {T : TreeModule Key} {t : RoseTree CString} {place : Key → List Nat}
  {found : Option CString → List Nat}

/-! ## One entry -/

/-- The walk over the siblings lists the paths from the key's node on, and leaves the key on the
last of them. -/
theorem siblings_spec (laws : TreeLaws T t place found) (a : List Nat) (fuel i : Nat) (k : Key)
    (c : List String) (hplace : place k = a ++ [i]) (hi : i < t.childCount a)
    (hfuel : t.childCount a - i ≤ fuel) :
    (siblings T fuel k c).1 =
        c ++ (List.range' i (t.childCount a - i)).map (fun j => fullPath t (a ++ [j])) ∧
      place (siblings T fuel k c).2 = a ++ [t.childCount a - 1] := by
  induction fuel generalizing i k c with
  | zero => omega
  | succ fuel ih =>
    obtain ⟨hmore, hnext⟩ := laws.nextSibling k a i hplace
    have hname : stringOfKeyText (T.getText k) = fullPath t (a ++ [i]) := by
      rw [laws.getText, hplace]
      rfl
    have hcount : t.childCount a - i = t.childCount a - (i + 1) + 1 := by omega
    rw [hcount, List.range'_succ, List.map_cons]
    simp only [siblings, hname]
    by_cases hlast : i + 1 < t.childCount a
    · rw [if_pos hlast] at hnext
      have hmore' : (T.nextSibling k).1 = true := by rw [hmore, decide_eq_true hlast]
      obtain ⟨hlist, hplace'⟩ := ih (i + 1) (T.nextSibling k).2 (c ++ [fullPath t (a ++ [i])])
        hnext hlast (by omega)
      rw [if_pos hmore']
      refine ⟨?_, hplace'⟩
      rw [hlist, List.append_assoc]
      rfl
    · rw [if_neg hlast] at hnext
      have hmore' : ¬ (T.nextSibling k).1 = true := by rw [hmore, decide_eq_true_iff]; exact hlast
      have hnone : t.childCount a - (i + 1) = 0 := by omega
      have hend : t.childCount a - 1 = i := by omega
      rw [if_neg hmore', hnone, hend]
      exact ⟨rfl, hnext⟩

/-- Where the walk along the children of a node leaves the key. -/
def placeAfter (t : RoseTree CString) (a : List Nat) : List Nat :=
  if 0 < t.childCount a then a ++ [t.childCount a - 1] else a

/-- An entry lists the children of the node on which the key stands, whichever that is. -/
theorem entryForTreeKey_spec (laws : TreeLaws T t place found) {fuel : Nat}
    (hfuel : ∀ a, t.childCount a ≤ fuel) (k : Key) :
    (entryForTreeKey T fuel k).1.content = childPaths t (place k) ∧
      place (entryForTreeKey T fuel k).2 = placeAfter t (place k) := by
  have hchildren := laws.hasChildren k
  simp only [entryForTreeKey, placeAfter, childPaths]
  by_cases h : 0 < t.childCount (place k)
  · rw [decide_eq_true h] at hchildren
    have hwalk := siblings_spec laws (place k) fuel 0 (T.firstChild k) [] (laws.firstChild k h) h
      (hfuel _)
    rw [if_pos hchildren, if_pos h]
    rw [List.nil_append, Nat.sub_zero, ← List.range_eq_range'] at hwalk
    exact hwalk
  · rw [decide_eq_false h] at hchildren
    have hzero : t.childCount (place k) = 0 := by omega
    rw [if_neg (by rw [hchildren]; exact Bool.false_ne_true), if_neg h, hzero]
    exact ⟨rfl, rfl⟩

end Entries

/-! ## The paths of the root's children -/

/-- The path of a node below the root has a slash. -/
theorem count_treePath_pos {t : RoseTree CString} {a : List Nat} (h : t.Valid a) (hne : a ≠ []) :
    0 < (treePath t a).count 0x2f := by
  cases a with
  | nil => exact absurd rfl hne
  | cons i a =>
    obtain ⟨child, hchild, -⟩ := t.valid_cons.mp h
    rw [treePath, hchild, List.count_cons_self]
    exact Nat.succ_pos _

/-- The path of a node further down has more slashes than the one of the root's child above it. -/
theorem count_treePath_lt {t : RoseTree CString} {i : Nat} {a : List Nat} (h : t.Valid (i :: a))
    (hne : a ≠ []) : (treePath t [i]).count 0x2f < (treePath t (i :: a)).count 0x2f := by
  obtain ⟨child, hchild, hvalid⟩ := t.valid_cons.mp h
  have hpos := count_treePath_pos hvalid hne
  simp only [treePath, hchild, List.count_cons_self, List.count_append, List.count_nil]
  omega

/-- No node but the root has children with the paths of the root's: it has none, or the root's child
above it differs from its own child of that number. -/
theorem childPaths_eq_root_iff {t : RoseTree CString} {a : List Nat} (ha : t.Valid a) :
    childPaths t a = childPaths t [] ↔ a = [] := by
  refine ⟨fun h => ?_, fun h => by rw [h]⟩
  cases a with
  | nil => rfl
  | cons i a =>
    have hroot : i < t.childCount [] := (t.valid_snoc [] i).mp (RoseTree.valid_head ha)
    have hcount : t.childCount (i :: a) = t.childCount [] := by
      have := congrArg List.length h
      simpa [childPaths] using this
    have hith := congrArg (fun paths => paths[i]?) h
    simp only [childPaths, List.getElem?_map, List.getElem?_range hroot, hcount, Option.map_some,
      Option.some.injEq, List.nil_append] at hith
    have hslashes := congrArg (fun path => path.toList.count '/') hith
    simp only [fullPath, count_stringOfKeyText _ (show '/'.toNat < 128 by decide)] at hslashes
    have hbelow := (t.valid_snoc (i :: a) i).mpr (hcount ▸ hroot)
    exact absurd hslashes (Nat.ne_of_gt (count_treePath_lt hbelow (List.concat_ne_nil i a)))

/-! ## Calls -/

/-- What `treeEntryForKey:` is called with: `nil`, or the full path of a node, here its address. -/
abbrev TreeCall (t : RoseTree CString) := Option { a : List Nat // t.Valid a }

/-- The node a call asks for. -/
def asked {t : RoseTree CString} : TreeCall t → List Nat
  | none => []
  | some a => a.1

/-- The argument of a call. -/
def argument {t : RoseTree CString} (call : TreeCall t) : Option String :=
  call.map fun a => fullPath t a.1

/-- The key an entry is kept under. -/
def bufferKey {t : RoseTree CString} (call : TreeCall t) : String :=
  (argument call).getD GenBookRootKey

/-- One call of a run. -/
def step (T : TreeModule Key) (fuel : Nat) {t : RoseTree CString} (book : SwordBook Key)
    (call : TreeCall t) : SwordBook Key :=
  (treeEntryForKey T fuel book (argument call)).2

/-- The call returns an entry with the children of the node it asks for. -/
def Right (T : TreeModule Key) (fuel : Nat) {t : RoseTree CString} (book : SwordBook Key)
    (call : TreeCall t) : Prop :=
  (treeEntryForKey T fuel book (argument call)).1.content = childPaths t (asked call)

/-- Nothing is kept for the call. -/
def Fresh {t : RoseTree CString} (book : SwordBook Key) (call : TreeCall t) : Prop :=
  AList.lookup (bufferKey call) book.contentsBuffer = none

/-- The node that the module finds under the argument of a call. -/
def opened (T : TreeModule Key) (found : Option CString → List Nat) {t : RoseTree CString} :
    TreeCall t → List Nat
  | none => []
  | some a => found (keyStr T (fullPath t a.1))

/-- The node whose children a call reads when nothing is kept for it. -/
def nodeRead (T : TreeModule Key) (place : Key → List Nat) (found : Option CString → List Nat)
    {t : RoseTree CString} (book : SwordBook Key) : TreeCall t → List Nat
  | none => place book.key
  | some a => found (keyStr T (fullPath t a.1))

/-- The path of a node opens the node: it is turned back into its bytes, or else into a text under
which the module finds a node with the same children. -/
def Opens (T : TreeModule Key) (t : RoseTree CString) (found : Option CString → List Nat)
    (a : List Nat) : Prop :=
  GivenBack T (treePath t a) ∨ childPaths t (found (keyStr T (fullPath t a))) = childPaths t a

/-- A call for the root finds the root's entry kept, or the key on the root. -/
def ReadsRoot (place : Key → List Nat) {t : RoseTree CString} (book : SwordBook Key)
    (call : TreeCall t) : Prop :=
  call = none → Fresh book call → place book.key = []

/-- The path of a call opens its node. -/
def OpensPath (T : TreeModule Key) (found : Option CString → List Nat) {t : RoseTree CString}
    (call : TreeCall t) : Prop :=
  ∀ a, call = some a → Opens T t found a.1

/-- What is kept is read at the node that the module finds. -/
def Kept (T : TreeModule Key) (t : RoseTree CString) (found : Option CString → List Nat)
    (book : SwordBook Key) : Prop :=
  ∀ (call : TreeCall t) (entry : SwordModuleTreeEntry),
    AList.lookup (bufferKey call) book.contentsBuffer = some entry →
      entry.content = childPaths t (opened T found call)

/-- No path reads as the key of the root's entry: a path is empty or begins with a slash. -/
theorem fullPath_ne_root (t : RoseTree CString) (a : List Nat) : fullPath t a ≠ GenBookRootKey := by
  have hslash : ∀ bytes, stringOfKeyText (0x2f :: bytes) ≠ GenBookRootKey := by
    intro bytes hroot
    rw [stringOfKeyText] at hroot
    cases hutf8 : stringWithUTF8String (0x2f :: bytes) with
    | some s =>
      rw [hutf8, Option.getD_some] at hroot
      obtain ⟨text, htext, rfl⟩ := Option.map_eq_some_iff.mp hutf8
      have hchars : text = "root".toList := by
        rw [← String.toList_ofList (l := text), hroot]
        rfl
      have hbytes := Lib.Percent.utf8_of_readUtf8 htext
      rw [hchars] at hbytes
      have hhead := congrArg List.head? hbytes
      rw [List.head?_cons] at hhead
      exact absurd hhead (by decide)
    | none =>
      rw [hutf8, Option.getD_none] at hroot
      have hchars := congrArg String.toList hroot
      rw [stringWithLatin1, String.toList_ofList] at hchars
      have hhead := congrArg List.head? hchars
      rw [List.map_cons, List.head?_cons] at hhead
      exact absurd hhead (by decide)
  rw [fullPath]
  cases a with
  | nil => exact (by decide : stringOfKeyText [] ≠ GenBookRootKey)
  | cons i a =>
    rw [treePath]
    cases t.children[i]? with
    | none => exact (by decide : stringOfKeyText [] ≠ GenBookRootKey)
    | some child => exact hslash _

section Calls

variable {T : TreeModule Key} {t : RoseTree CString} {place : Key → List Nat}
  {found : Option CString → List Nat}

/-- A path that is turned back into its bytes is found. -/
theorem found_keyStr (laws : TreeLaws T t place found) {a : List Nat} (ha : t.Valid a)
    (h : GivenBack T (treePath t a)) : found (keyStr T (fullPath t a)) = a := by
  rw [fullPath, (keyStr_stringOfKeyText_iff T (treePath t a)).mpr h, laws.found_treePath a ha]

theorem opens_iff (laws : TreeLaws T t place found) {a : List Nat} (ha : t.Valid a) :
    Opens T t found a ↔ childPaths t (found (keyStr T (fullPath t a))) = childPaths t a := by
  refine or_iff_right_of_imp fun h => ?_
  rw [found_keyStr laws ha h]

/-- Calls that share an entry open one node, for the string decides which. -/
theorem opened_congr {call call' : TreeCall t} (h : bufferKey call = bufferKey call') :
    opened T found call = opened T found call' := by
  cases call with
  | none =>
    cases call' with
    | none => rfl
    | some b => exact absurd h.symm (fullPath_ne_root t b.1)
  | some a =>
    cases call' with
    | none => exact absurd h (fullPath_ne_root t a.1)
    | some b => exact congrArg (fun path => found (keyStr T path)) h

/-- A call that finds its entry returns it and changes nothing. -/
theorem treeEntryForKey_kept (fuel : Nat) {book : SwordBook Key} {call : TreeCall t}
    {entry : SwordModuleTreeEntry}
    (h : AList.lookup (bufferKey call) book.contentsBuffer = some entry) :
    treeEntryForKey T fuel book (argument call) = (entry, book) := by
  cases call with
  | none =>
    have hroot : AList.lookup GenBookRootKey book.contentsBuffer = some entry := h
    simp only [argument, Option.map_none, treeEntryForKey, hroot]
  | some a =>
    have hpath : AList.lookup (fullPath t a.1) book.contentsBuffer = some entry := h
    simp only [argument, Option.map_some, treeEntryForKey, hpath]

/-- A call that finds nothing reads the node it comes to, keeps the entry, and leaves the key behind
that node's children. -/
theorem treeEntryForKey_fresh (laws : TreeLaws T t place found) {fuel : Nat}
    (hfuel : ∀ a, t.childCount a ≤ fuel) {book : SwordBook Key} (call : TreeCall t)
    (h : Fresh book call) :
    let out := treeEntryForKey T fuel book (argument call)
    out.1.content = childPaths t (nodeRead T place found book call) ∧
      out.2.contentsBuffer = book.contentsBuffer.insert (bufferKey call) out.1 ∧
      place out.2.key = placeAfter t (nodeRead T place found book call) := by
  cases call with
  | none =>
    have hroot : AList.lookup GenBookRootKey book.contentsBuffer = none := h
    simp only [argument, Option.map_none, treeEntryForKey, hroot]
    obtain ⟨hcontent, hplace⟩ := entryForTreeKey_spec laws hfuel book.key
    exact ⟨hcontent, rfl, hplace⟩
  | some a =>
    have hpath : AList.lookup (fullPath t a.1) book.contentsBuffer = none := h
    simp only [argument, Option.map_some, treeEntryForKey, hpath]
    obtain ⟨hcontent, hplace⟩ := entryForTreeKey_spec laws hfuel
      (T.setKey book.key (keyStr T (fullPath t a.1)))
    rw [laws.setKey] at hcontent hplace
    exact ⟨hcontent, rfl, hplace⟩

/-- **One call.** With nothing wrong kept, a call is right exactly when it reads the root where it
asks for the root, and where it asks for a path, when the path opens its node. -/
theorem right_iff (laws : TreeLaws T t place found) {fuel : Nat}
    (hfuel : ∀ a, t.childCount a ≤ fuel) {book : SwordBook Key} (kept : Kept T t found book)
    (call : TreeCall t) :
    Right T fuel book call ↔ ReadsRoot place book call ∧ OpensPath T found call := by
  cases call with
  | some a =>
    -- kept or read now, the entry is of the node that the module finds
    have hcontent : (treeEntryForKey T fuel book (argument (some a))).1.content =
        childPaths t (found (keyStr T (fullPath t a.1))) := by
      cases hlookup : AList.lookup (bufferKey (some a)) book.contentsBuffer with
      | some entry =>
        rw [treeEntryForKey_kept fuel hlookup]
        exact kept (some a) entry hlookup
      | none => exact (treeEntryForKey_fresh laws hfuel (some a) hlookup).1
    rw [Right, hcontent]
    refine (opens_iff laws a.2).symm.trans ⟨fun h => ⟨nofun, ?_⟩, fun h => h.2 a rfl⟩
    rintro b hb
    cases hb
    exact h
  | none =>
    rw [and_iff_left (show OpensPath T found (none : TreeCall t) from nofun), ReadsRoot]
    cases hlookup : AList.lookup (bufferKey (t := t) none) book.contentsBuffer with
    | some entry =>
      have hright : Right T fuel book (none : TreeCall t) := by
        rw [Right, treeEntryForKey_kept fuel hlookup]
        exact kept none entry hlookup
      exact iff_of_true hright fun _ hfresh => absurd (hlookup.symm.trans hfresh) (by simp)
    | none =>
      obtain ⟨hcontent, -, -⟩ := treeEntryForKey_fresh laws hfuel (none : TreeCall t) hlookup
      rw [Right, hcontent]
      exact (childPaths_eq_root_iff (laws.valid book.key)).trans
        ⟨fun h _ _ => h, fun h => h rfl hlookup⟩

/-- A call that reads the root, or asks for a path, keeps what is right. -/
theorem kept_step (laws : TreeLaws T t place found) {fuel : Nat}
    (hfuel : ∀ a, t.childCount a ≤ fuel) {book : SwordBook Key} {call : TreeCall t}
    (kept : Kept T t found book) (hreads : ReadsRoot place book call) :
    Kept T t found (step T fuel book call) := by
  cases hlookup : AList.lookup (bufferKey call) book.contentsBuffer with
  | some entry =>
    rw [step, treeEntryForKey_kept fuel hlookup]
    exact kept
  | none =>
    obtain ⟨hcontent, hbuffer, -⟩ := treeEntryForKey_fresh laws hfuel call hlookup
    have hnode : nodeRead T place found book call = opened T found call := by
      cases call with
      | none => exact hreads rfl hlookup
      | some a => rfl
    intro call' entry hentry
    rw [step, hbuffer, Dictionary.lookup_insert] at hentry
    by_cases hsame : bufferKey call' = bufferKey call
    · rw [if_pos hsame, Option.some.injEq] at hentry
      rw [opened_congr hsame, ← hentry, hcontent, hnode]
    · rw [if_neg hsame] at hentry
      exact kept call' entry hentry

end Calls

/-! ## Runs -/

section Runs

variable {T : TreeModule Key} {t : RoseTree CString} {place : Key → List Nat}
  {found : Option CString → List Nat}

/-- The state in which a call for the root goes wrong: its entry is not kept, and the key has left
the root. -/
def Astray (t : RoseTree CString) (place : Key → List Nat) (book : SwordBook Key) : Prop :=
  Fresh (t := t) book none ∧ place book.key ≠ []

/-- Where the root has children, the walk leaves the root. -/
theorem placeAfter_ne_nil (hroot : 0 < t.childCount []) (a : List Nat) : placeAfter t a ≠ [] := by
  rw [placeAfter]
  by_cases h : 0 < t.childCount a
  · rw [if_pos h]
    exact fun hnil => absurd (List.append_eq_nil_iff.mp hnil).2 (List.cons_ne_nil _ _)
  · rw [if_neg h]
    rintro rfl
    exact h hroot

/-- Reading a node by its path leads astray, or leaves the module there. -/
theorem astray_step (laws : TreeLaws T t place found) {fuel : Nat}
    (hfuel : ∀ a, t.childCount a ≤ fuel) (hroot : 0 < t.childCount []) {book : SwordBook Key}
    {a : { a : List Nat // t.Valid a }} (hnone : Fresh (t := t) book none)
    (h : Fresh book (some a) ∨ Astray t place book) :
    Astray t place (step T fuel book (some a)) := by
  cases hlookup : AList.lookup (bufferKey (some a)) book.contentsBuffer with
  | some entry =>
    rw [step, treeEntryForKey_kept fuel hlookup]
    exact h.resolve_left fun hfresh => absurd (hlookup.symm.trans hfresh) (by simp)
  | none =>
    obtain ⟨-, hbuffer, hplace⟩ := treeEntryForKey_fresh laws hfuel (some a) hlookup
    refine ⟨?_, ?_⟩
    · have hne : bufferKey (t := t) none ≠ bufferKey (some a) := fun heq =>
        fullPath_ne_root t a.1 heq.symm
      rw [Fresh, step, hbuffer, Dictionary.lookup_insert, if_neg hne]
      exact hnone
    · rw [step, hplace]
      exact placeAfter_ne_nil hroot _

/-- Once astray, a run goes wrong at its first call for the root. -/
theorem not_always_of_astray (laws : TreeLaws T t place found) {fuel : Nat}
    (hfuel : ∀ a, t.childCount a ≤ fuel) (hroot : 0 < t.childCount []) {book : SwordBook Key}
    {calls : List (TreeCall t)} (h : Astray t place book) (hmem : none ∈ calls) :
    ¬ Run.Always (step T fuel) (ReadsRoot place) book calls := by
  induction calls generalizing book with
  | nil => exact absurd hmem List.not_mem_nil
  | cons call calls ih =>
    rintro ⟨hreads, hrest⟩
    cases call with
    | none => exact h.2 (hreads rfl h.1)
    | some a =>
      have hlater : none ∈ calls := List.mem_of_ne_of_mem (Option.some_ne_none a).symm hmem
      exact ih (astray_step laws hfuel hroot h.1 (Or.inr h)) hlater hrest

/-- What is kept for the root stays kept. -/
theorem root_kept_step (laws : TreeLaws T t place found) {fuel : Nat}
    (hfuel : ∀ a, t.childCount a ≤ fuel) {book : SwordBook Key} (call : TreeCall t)
    (h : ¬ Fresh (t := t) book none ∨ call = none) :
    ¬ Fresh (t := t) (step T fuel book call) none := by
  cases hlookup : AList.lookup (bufferKey call) book.contentsBuffer with
  | some entry =>
    rw [step, treeEntryForKey_kept fuel hlookup]
    rcases h with h | rfl
    · exact h
    · exact fun hfresh => absurd (hlookup.symm.trans hfresh) (by simp)
  | none =>
    obtain ⟨-, hbuffer, -⟩ := treeEntryForKey_fresh laws hfuel call hlookup
    rw [Fresh, step, hbuffer, Dictionary.lookup_insert]
    by_cases hsame : bufferKey (t := t) none = bufferKey call
    · rw [if_pos hsame]
      exact Option.some_ne_none _
    · rw [if_neg hsame]
      rcases h with h | rfl
      · exact h
      · exact absurd rfl hsame

/-- Where the root has no children there is nothing but the root to read. -/
theorem reads_of_leaf (laws : TreeLaws T t place found) (hleaf : t.childCount [] = 0)
    (book : SwordBook Key) (call : TreeCall t) : ReadsRoot place book call := by
  intro _ _
  by_contra hne
  have hpos := RoseTree.childCount_root_pos (laws.valid book.key) hne
  omega

/-- Once the root's entry is kept, every call for the root finds it. -/
theorem always_of_root_kept (laws : TreeLaws T t place found) {fuel : Nat}
    (hfuel : ∀ a, t.childCount a ≤ fuel) {book : SwordBook Key}
    (hkept : ¬ Fresh (t := t) book none) (calls : List (TreeCall t)) :
    Run.Always (step T fuel) (ReadsRoot place) book calls := by
  have keeps : ∀ (book : SwordBook Key) (call : TreeCall t), ¬ Fresh (t := t) book none →
      True → ¬ Fresh (t := t) (step T fuel book call) none :=
    fun book call h _ => root_kept_step laws hfuel call (Or.inl h)
  have holds : ∀ (book : SwordBook Key) (call : TreeCall t), ¬ Fresh (t := t) book none →
      True → ReadsRoot place book call := by
    rintro book _ h - rfl hcall
    exact absurd hcall h
  exact Run.always_of_invariant keeps holds hkept (Run.always_of_mem fun _ _ _ => trivial)

/-- A run of a new object whose calls for the root all read it asks for the root first, or never, or
has nothing below the root. -/
theorem root_first_of_always (laws : TreeLaws T t place found) {fuel : Nat}
    (hfuel : ∀ a, t.childCount a ≤ fuel) {book : SwordBook Key}
    (hfresh : ∀ call : TreeCall t, Fresh book call) {calls : List (TreeCall t)}
    (hrun : Run.Always (step T fuel) (ReadsRoot place) book calls) :
    t.childCount [] = 0 ∨ none ∉ calls ∨ calls.head? = some none := by
  by_cases hroot : t.childCount [] = 0
  · exact Or.inl hroot
  · have hpos := Nat.pos_of_ne_zero hroot
    right
    cases calls with
    | nil => exact Or.inl List.not_mem_nil
    | cons call calls =>
      cases call with
      | none => exact Or.inr rfl
      | some a =>
        refine Or.inl fun hmem => ?_
        have hlater : none ∈ calls := List.mem_of_ne_of_mem (Option.some_ne_none a).symm hmem
        have hastray := astray_step laws hfuel hpos (hfresh none) (Or.inl (hfresh (some a)))
        exact not_always_of_astray laws hfuel hpos hastray hlater hrun.2

/-- The calls of a run of a new object that ask for the root read it exactly when the first call
does, or none, or there is nothing below the root. -/
theorem reads_root_iff (laws : TreeLaws T t place found) {fuel : Nat}
    (hfuel : ∀ a, t.childCount a ≤ fuel) {book : SwordBook Key}
    (hfresh : ∀ call : TreeCall t, Fresh book call) (hstart : place book.key = [])
    (calls : List (TreeCall t)) :
    Run.Always (step T fuel) (ReadsRoot place) book calls ↔
      t.childCount [] = 0 ∨ none ∉ calls ∨ calls.head? = some none := by
  refine ⟨root_first_of_always laws hfuel hfresh, ?_⟩
  rintro (hleaf | hnever | hfirst)
  · exact Run.always_of_mem fun book call _ => reads_of_leaf laws hleaf book call
  · refine Run.always_of_mem fun book call hmem hnone => ?_
    rw [hnone] at hmem
    exact absurd hmem hnever
  · cases calls with
    | nil => trivial
    | cons call rest =>
      obtain rfl : call = none := Option.some.inj hfirst
      exact ⟨fun _ _ => hstart,
        always_of_root_kept laws hfuel (root_kept_step laws hfuel none (Or.inr rfl)) rest⟩

/-- **The entries of a run are right exactly when the root is asked for first or never**, or has
nothing below it, and the paths asked for open their nodes: they are turned back into their bytes,
or into a text under which the module finds a node with the same children. The object is new, and
its module stands at the root. -/
theorem entries_right_iff (laws : TreeLaws T t place found) {fuel : Nat}
    (hfuel : ∀ a, t.childCount a ≤ fuel) {book : SwordBook Key} (hnew : book.contentsBuffer = ∅)
    (hstart : place book.key = []) (calls : List (TreeCall t)) :
    Run.Always (step T fuel) (Right T fuel) book calls ↔
      (t.childCount [] = 0 ∨ none ∉ calls ∨ calls.head? = some none) ∧
        ∀ a, some a ∈ calls → Opens T t found a.1 := by
  have hfresh : ∀ call : TreeCall t, Fresh book call := fun call => by
    rw [Fresh, hnew, AList.lookup_empty]
  have kept : Kept T t found book := fun call entry hentry =>
    absurd (hentry.symm.trans (hfresh call)) (by simp)
  rw [Run.always_iff (fun book call kept hreads => kept_step laws hfuel kept hreads.1)
      (fun book call kept => right_iff laws hfuel kept call) kept,
    Run.always_and, Run.always_iff_forall_mem, reads_root_iff laws hfuel hfresh hstart]
  refine and_congr_right fun _ => ⟨fun h a hmem => h _ hmem a rfl, ?_⟩
  rintro h call hmem a rfl
  exact h a hmem

end Runs

/-! ## A small book -/

/-- Part A with a chapter C, and part B. -/
def smallTree : RoseTree CString :=
  .node [] [.node (UTF8String "A") [.node (UTF8String "C") []], .node (UTF8String "B") []]

/-- A node of the book. -/
abbrev SmallKey := { a : List Nat // smallTree.Valid a }

def smallAddresses : List SmallKey :=
  [⟨[], by decide⟩, ⟨[0], by decide⟩, ⟨[0, 0], by decide⟩, ⟨[1], by decide⟩]

/-- The node of a path, and the root where there is none. -/
def smallFound (text : Option CString) : SmallKey :=
  (smallAddresses.find? fun a => some (treePath smallTree a.1) = text).getD ⟨[], by decide⟩

/-- The book's module: its keys are the nodes. -/
def smallModule : TreeModule SmallKey where
  isUnicode := true
  setKey _ text := smallFound text
  getText k := treePath smallTree k.1
  hasChildren k := decide (0 < smallTree.childCount k.1)
  firstChild k := if h : smallTree.Valid (k.1 ++ [0]) then ⟨_, h⟩ else k
  nextSibling k :=
    if h : smallTree.Valid (k.1.dropLast ++ [k.1.getLastD 0 + 1]) then (true, ⟨_, h⟩)
    else (false, k)

theorem mem_smallAddresses (a : SmallKey) : a ∈ smallAddresses := by
  obtain ⟨a, ha⟩ := a
  rcases a with _ | ⟨i, a⟩
  · simp [smallAddresses]
  · rcases i with _ | _ | i
    · rcases a with _ | ⟨j, a⟩
      · simp [smallAddresses]
      · rcases j with _ | j
        · rcases a with _ | ⟨k, a⟩
          · simp [smallAddresses]
          · exact absurd ha
              (by simp [RoseTree.Valid, RoseTree.subtree, smallTree, RoseTree.children])
        · exact absurd ha (by simp [RoseTree.Valid, RoseTree.subtree, smallTree, RoseTree.children])
    · rcases a with _ | ⟨j, a⟩
      · simp [smallAddresses]
      · exact absurd ha (by simp [RoseTree.Valid, RoseTree.subtree, smallTree, RoseTree.children])
    · exact absurd ha (by simp [RoseTree.Valid, RoseTree.subtree, smallTree, RoseTree.children])

theorem smallModule_laws :
    TreeLaws smallModule smallTree (fun k => k.1) (fun text => (smallFound text).1) where
  valid k := k.2
  setKey _ _ := rfl
  found_treePath a ha := by
    have hfind : ∀ a ∈ smallAddresses, smallFound (some (treePath smallTree a.1)) = a := by decide
    exact congrArg Subtype.val (hfind ⟨a, ha⟩ (mem_smallAddresses ⟨a, ha⟩))
  getText _ := rfl
  hasChildren _ := rfl
  firstChild k hchildren := by
    have hvalid : smallTree.Valid (k.1 ++ [0]) := (smallTree.valid_snoc k.1 0).mpr hchildren
    show (if h : smallTree.Valid (k.1 ++ [0]) then (⟨_, h⟩ : SmallKey) else k).1 = k.1 ++ [0]
    rw [dif_pos hvalid]
  nextSibling k a i hplace := by
    have hnext : k.1.dropLast ++ [k.1.getLastD 0 + 1] = a ++ [i + 1] := by
      rw [hplace]
      simp
    have hvalid := smallTree.valid_snoc a (i + 1)
    simp only [smallModule, hnext]
    by_cases h : i + 1 < smallTree.childCount a
    · rw [dif_pos (hvalid.mpr h), if_pos h, decide_eq_true h]
      exact ⟨rfl, rfl⟩
    · rw [dif_neg fun hv => h (hvalid.mp hv), if_neg h, decide_eq_false h]
      exact ⟨rfl, hplace⟩

theorem smallTree_fuel (a : List Nat) : smallTree.childCount a ≤ 2 := by
  by_cases ha : smallTree.Valid a
  · have hall : ∀ a ∈ smallAddresses, smallTree.childCount a.1 ≤ 2 := by decide
    exact hall ⟨a, ha⟩ (mem_smallAddresses ⟨a, ha⟩)
  · have hnone : smallTree.subtree a = none := Option.not_isSome_iff_eq_none.mp ha
    rw [RoseTree.childCount, hnone]
    exact Nat.zero_le 2

/-- The book's object when it is new. -/
def smallBook : SwordBook SmallKey := ⟨⟨[], by decide⟩, ∅⟩

/-- The root first, then part A, then the root again. -/
theorem entries_right_root_first :
    Run.Always (step smallModule 2) (Right smallModule 2) smallBook
      [(none : TreeCall smallTree), some ⟨[0], by decide⟩, none] := by
  refine (entries_right_iff smallModule_laws smallTree_fuel rfl rfl _).mpr
    ⟨Or.inr (Or.inr rfl), fun a hmem => Or.inl (Or.inl ⟨rfl, ?_⟩)⟩
  have ha : a.1 = [0] := by simpa [Subtype.ext_iff] using hmem
  have hpath : treePath smallTree [0] = UTF8String "/A" := by decide
  rw [ha, hpath, stringWithUTF8String_UTF8String]
  exact Option.some_ne_none _

/-- Part A first: the root is then answered with the children of chapter C. -/
theorem entries_wrong_path_first :
    TreeLaws smallModule smallTree (fun k => k.1) (fun text => (smallFound text).1) ∧
      fullPath smallTree [0] = "/A" ∧ childPaths smallTree [] = ["/A", "/B"] ∧
      (treeEntryForKey smallModule 2 smallBook (some "/A")).1.content = ["/A/C"] ∧
      (treeEntryForKey smallModule 2 (treeEntryForKey smallModule 2 smallBook (some "/A")).2
        none).1.content = [] :=
  ⟨smallModule_laws, by decide, by decide, by decide, by decide⟩

end SwordBook

end ObjCSword
