import ObjCSword.Lib.Run
import ObjCSword.SwordInstallSource

/-!
# What the install source manager keeps over a run

The manager stores each source under its own caption, a field its owner can change, and rewrites the
type field of the very object the caller holds. Two laws about runs decide when that is sound:

- the transport kind (`transport_kept_iff`): a source is stored with the section type of the kind it
  was created with exactly when an FTP source is only ever added or updated while its type field
  reads `FTP`, that is when it is new or `allInstallSources` has listed it since the last time;
- the keys (`keys_match_iff`): the map is keyed by the captions of what it stores after every call
  exactly when no update follows a change of the caption of a source that is stored.

Both follow the same route: what one call does to the memory and to the map (one equation each),
an invariant of the state, and the exact rule for runs (`Lib.Run.always_iff`).
-/

namespace ObjCSword.SwordInstallSourceManager

open SwordInstallSource Lib.Run

/-! ## What one call does -/

/-- The stored type that `addInstallSource:reload:` derives from the type it finds. -/
def sectionType (aType : String) : String :=
  if aType = INSTALLSOURCE_TYPE_FTP then INSTALLSOURCE_SECTION_TYPE_FTP
  else INSTALLSOURCE_SECTION_TYPE_HTTP

theorem addInstallSource_memory (m : SwordInstallSourceManager) (is : SwordInstallSource)
    (doReload : Bool) :
    (m.addInstallSource is doReload).1.memory =
      is.setType (sectionType (is.type m.memory)) m.memory := by
  unfold addInstallSource sectionType
  split
  · rfl
  · rfl

/-- The section type is not the caption's business: the map key is the caption found before. -/
theorem addInstallSource_sources (m : SwordInstallSourceManager) (is : SwordInstallSource)
    (doReload : Bool) :
    (m.addInstallSource is doReload).1.sources =
      m.sources.insert (is.caption m.memory) is.installSource := by
  have hkey : ∀ t : String, (is.setType t m.memory is.installSource).caption =
      is.caption m.memory := fun t => by
    simp only [setType, Function.update_self, caption]
  unfold addInstallSource
  dsimp only
  split
  · rw [hkey]
  · rw [hkey]

/-- Setting a type leaves every other object alone. -/
theorem setType_of_ne {is : SwordInstallSource} {r : Ref} (t : String) (mem : Memory)
    (h : r ≠ is.installSource) : is.setType t mem r = mem r :=
  Function.update_of_ne h _ _

/-- Setting a type leaves every caption alone, that of its own object included. -/
theorem setType_caption (is : SwordInstallSource) (t : String) (mem : Memory) (r : Ref) :
    (is.setType t mem r).caption = (mem r).caption := by
  by_cases h : r = is.installSource
  · subst h
    simp only [setType, Function.update_self]
  · rw [setType_of_ne t mem h]

theorem setType_type (is : SwordInstallSource) (t : String) (mem : Memory) :
    (is.setType t mem is.installSource).type = t := by
  simp only [setType, Function.update_self]

/-- An edit writes to its own source only, and never to a type field. -/
theorem edit_memory_of_ne {is : SwordInstallSource} {r : Ref} (h : r ≠ is.installSource)
    (m : SwordInstallSourceManager) (edits : List SourceEdit) :
    (m.edit is edits).memory r = m.memory r := by
  show edits.foldl (SourceEdit.apply is) m.memory r = m.memory r
  generalize m.memory = mem
  induction edits generalizing mem with
  | nil => rfl
  | cons e edits ih =>
    rw [List.foldl_cons, ih]
    cases e <;> exact Function.update_of_ne h _ _

theorem edit_memory_type (is : SwordInstallSource) (m : SwordInstallSourceManager)
    (edits : List SourceEdit) (r : Ref) :
    ((m.edit is edits).memory r).type = (m.memory r).type := by
  by_cases h : r = is.installSource
  · subst h
    show (edits.foldl (SourceEdit.apply is) m.memory is.installSource).type = _
    generalize m.memory = mem
    induction edits generalizing mem with
    | nil => rfl
    | cons e edits ih =>
      rw [List.foldl_cons, ih]
      cases e <;> simp only [SourceEdit.apply, setCaption, setSource, setDirectory,
        Function.update_self]
  · rw [edit_memory_of_ne h]

/-- `updateInstallSource:` erases the caption it finds and stores the source under it. -/
theorem updateInstallSource_sources (m : SwordInstallSourceManager) (is : SwordInstallSource) :
    (m.updateInstallSource is).1.sources =
      (m.sources.erase (is.caption m.memory)).insert (is.caption m.memory) is.installSource :=
  addInstallSource_sources (m.removeInstallSource is false) is false

theorem updateInstallSource_memory (m : SwordInstallSourceManager) (is : SwordInstallSource) :
    (m.updateInstallSource is).1.memory = is.setType (sectionType (is.type m.memory)) m.memory :=
  addInstallSource_memory (m.removeInstallSource is false) is false

/-! ## What a listing writes -/

/-- What a listing makes of an object it visits: an FTP section type is turned back. -/
def restored (o : InstallSource) : InstallSource :=
  if o.type = INSTALLSOURCE_SECTION_TYPE_FTP then { o with type := INSTALLSOURCE_TYPE_FTP } else o

theorem restored_caption (o : InstallSource) : (restored o).caption = o.caption := by
  unfold restored
  split
  · rfl
  · rfl

/-- An object visited twice is written once. -/
theorem restored_restored (o : InstallSource) : restored (restored o) = restored o := by
  by_cases h : o.type = INSTALLSOURCE_SECTION_TYPE_FTP
  · have hne : INSTALLSOURCE_TYPE_FTP ≠ INSTALLSOURCE_SECTION_TYPE_FTP := by decide
    have hr : restored o = { o with type := INSTALLSOURCE_TYPE_FTP } := if_pos h
    rw [hr]
    exact if_neg hne
  · have hr : restored o = o := if_neg h
    rw [hr, hr]

theorem listSource_memory (acc : Dictionary SwordInstallSource × Memory) (sis r : Ref) :
    (listSource acc sis).2 r = if r = sis then restored (acc.2 r) else acc.2 r := by
  by_cases hr : r = sis
  · subst hr
    rw [if_pos rfl]
    by_cases ht : (acc.2 r).type = INSTALLSOURCE_SECTION_TYPE_FTP
    · simp only [listSource, initWithSource, type, ht, if_true, setType, Function.update_self,
        restored]
    · simp only [listSource, initWithSource, type, ht, if_false, restored]
  · rw [if_neg hr]
    have hset : (initWithSource sis).setType INSTALLSOURCE_TYPE_FTP acc.2 r = acc.2 r :=
      setType_of_ne _ _ hr
    simp only [listSource, ite_apply, hset, ite_self]

theorem foldl_listSource_memory (l : List Ref) (acc : Dictionary SwordInstallSource × Memory)
    (r : Ref) :
    (l.foldl listSource acc).2 r = if r ∈ l then restored (acc.2 r) else acc.2 r := by
  induction l generalizing acc with
  | nil => rw [List.foldl_nil, if_neg List.not_mem_nil]
  | cons a l ih =>
    rw [List.foldl_cons, ih, listSource_memory]
    by_cases hr : r = a
    · subst hr
      rw [if_pos rfl, if_pos List.mem_cons_self, restored_restored, ite_self]
    · simp only [hr, if_false, List.mem_cons, false_or]

/-- A reference is visited by the listing exactly when the map stores it. -/
theorem mem_stored_iff (m : SwordInstallSourceManager) (r : Ref) :
    r ∈ m.sources.entries.map Sigma.snd ↔ ∃ c, m.sources.lookup c = some r := by
  constructor
  · intro h
    obtain ⟨⟨c, r'⟩, he, rfl⟩ := List.mem_map.mp h
    exact ⟨c, AList.mem_lookup_iff.mpr he⟩
  · rintro ⟨c, h⟩
    exact List.mem_map.mpr ⟨⟨c, r⟩, AList.mem_lookup_iff.mp h, rfl⟩

/-- `allInstallSources` keeps the map and every caption. -/
theorem allInstallSources_caption (m : SwordInstallSourceManager) (r : Ref) :
    (m.allInstallSources.2.memory r).caption = (m.memory r).caption := by
  show (((m.sources.entries.map Sigma.snd).foldl listSource (∅, m.memory)).2 r).caption = _
  rw [foldl_listSource_memory]
  split
  · exact restored_caption _
  · rfl

/-- A source that is not stored, or not stored as FTP, is not written by a listing. -/
theorem allInstallSources_memory_of_ne (m : SwordInstallSourceManager) {r : Ref}
    (h : (∃ c, m.sources.lookup c = some r) →
      (m.memory r).type ≠ INSTALLSOURCE_SECTION_TYPE_FTP) :
    m.allInstallSources.2.memory r = m.memory r := by
  show ((m.sources.entries.map Sigma.snd).foldl listSource (∅, m.memory)).2 r = _
  rw [foldl_listSource_memory]
  split
  · next hr => exact if_neg (h ((mem_stored_iff m r).mp hr))
  · rfl

/-! ## The transport kind -/

/-- A manager that has stored nothing yet, over the source objects as they were created. -/
def initial (created : Memory) : SwordInstallSourceManager := ⟨created, ∅⟩

/-- The source is in the map under its caption, with the section type of its kind. -/
def StoredByKind (created : Memory) (m : SwordInstallSourceManager) (is : SwordInstallSource) :
    Prop :=
  m.sources.lookup (is.caption m.memory) = some is.installSource ∧
    is.type m.memory = sectionType (is.type created)

/-- After every add or update, the source is stored with the section type of the kind it was
created with. -/
def KeepsTransport (created : Memory) (m : SwordInstallSourceManager) : SourceCall → Prop
  | .add is doReload => StoredByKind created (m.step (.add is doReload)) is
  | .update is edits => StoredByKind created (m.step (.update is edits)) is
  | .remove _ _ => True
  | .list => True

/-- An FTP source is added or updated only while its type field reads `FTP`: it is new, or a listing
has turned its type back since it was last stored. -/
def TypeRestored (created : Memory) (m : SwordInstallSourceManager) : SourceCall → Prop
  | .add is _ | .update is _ =>
    is.type created = INSTALLSOURCE_TYPE_FTP → is.type m.memory = INSTALLSOURCE_TYPE_FTP
  | .remove _ _ => True
  | .list => True

/-- The invariant that needs no condition: a source of another kind never comes to read as FTP, and
is stored as HTTP. -/
def HttpStays (created : Memory) (m : SwordInstallSourceManager) : Prop :=
  ∀ r, (created r).type ≠ INSTALLSOURCE_TYPE_FTP →
    (m.memory r).type ≠ INSTALLSOURCE_TYPE_FTP ∧
      ((∃ c, m.sources.lookup c = some r) → (m.memory r).type = INSTALLSOURCE_SECTION_TYPE_HTTP)

theorem addInstallSource_stored (m : SwordInstallSourceManager) (is : SwordInstallSource)
    (doReload : Bool) :
    let m' := (m.addInstallSource is doReload).1
    m'.sources.lookup (is.caption m'.memory) = some is.installSource ∧
      is.type m'.memory = sectionType (is.type m.memory) := by
  dsimp only
  rw [addInstallSource_memory, addInstallSource_sources]
  refine ⟨?_, setType_type is _ _⟩
  rw [caption, setType_caption]
  exact AList.lookup_insert _

/-- A source is stored by its kind exactly when the type field an add finds leads to the section
type of the kind. -/
theorem storedByKind_add_iff (created : Memory) (m : SwordInstallSourceManager)
    (is : SwordInstallSource) (doReload : Bool) :
    StoredByKind created (m.addInstallSource is doReload).1 is ↔
      sectionType (is.type m.memory) = sectionType (is.type created) := by
  obtain ⟨hkey, htype⟩ := addInstallSource_stored m is doReload
  exact ⟨fun h => htype.symm.trans h.2, fun h => ⟨hkey, htype.trans h⟩⟩

theorem sectionType_eq_iff (t u : String) :
    sectionType t = sectionType u ↔ (t = INSTALLSOURCE_TYPE_FTP ↔ u = INSTALLSOURCE_TYPE_FTP) := by
  have hne : INSTALLSOURCE_SECTION_TYPE_FTP ≠ INSTALLSOURCE_SECTION_TYPE_HTTP := by decide
  unfold sectionType
  by_cases ht : t = INSTALLSOURCE_TYPE_FTP <;> by_cases hu : u = INSTALLSOURCE_TYPE_FTP
  · simp only [ht, hu]
  · simp only [ht, hu, if_true, if_false, hne, iff_false, not_true]
  · simp only [ht, hu, if_true, if_false, hne.symm, iff_true]
  · simp only [ht, hu, if_false]

/-- An add of any object keeps the invariant: the object added reads as a section type, the others
are untouched. -/
theorem httpStays_add {created : Memory} {m : SwordInstallSourceManager} (h : HttpStays created m)
    (is : SwordInstallSource) (doReload : Bool) :
    HttpStays created (m.addInstallSource is doReload).1 := by
  intro r hr
  rw [addInstallSource_memory, addInstallSource_sources]
  by_cases hs : r = is.installSource
  · subst hs
    have hsec : sectionType (is.type m.memory) = INSTALLSOURCE_SECTION_TYPE_HTTP :=
      if_neg (h _ hr).1
    rw [setType_type, hsec]
    exact ⟨by decide, fun _ => rfl⟩
  · rw [setType_of_ne _ _ hs]
    refine ⟨(h r hr).1, fun ⟨c, hc⟩ => (h r hr).2 ⟨c, ?_⟩⟩
    rw [Dictionary.lookup_insert] at hc
    split at hc
    · exact absurd (Option.some.inj hc).symm hs
    · exact hc

theorem httpStays_remove {created : Memory} {m : SwordInstallSourceManager}
    (h : HttpStays created m) (is : SwordInstallSource) (doReload : Bool) :
    HttpStays created (m.removeInstallSource is doReload) := by
  intro r hr
  refine ⟨(h r hr).1, fun ⟨c, hc⟩ => (h r hr).2 ⟨c, ?_⟩⟩
  simp only [removeInstallSource, Dictionary.lookup_erase] at hc
  split at hc
  · cases hc
  · exact hc

theorem httpStays_edit {created : Memory} {m : SwordInstallSourceManager}
    (h : HttpStays created m) (is : SwordInstallSource) (edits : List SourceEdit) :
    HttpStays created (m.edit is edits) := by
  intro r hr
  rw [edit_memory_type]
  exact h r hr

/-- No call makes a source of another kind read as FTP. -/
theorem httpStays_step {created : Memory} {m : SwordInstallSourceManager}
    (h : HttpStays created m) (call : SourceCall) : HttpStays created (m.step call) := by
  cases call with
  | add is doReload => exact httpStays_add h is doReload
  | remove is doReload => exact httpStays_remove h is doReload
  | update is edits => exact httpStays_add (httpStays_remove (httpStays_edit h is edits) is _) is _
  | list =>
    intro r hr
    have hmem : m.allInstallSources.2.memory r = m.memory r :=
      allInstallSources_memory_of_ne m fun stored => by
        rw [(h r hr).2 stored]
        decide
    show (m.allInstallSources.2.memory r).type ≠ _ ∧ (_ → (m.allInstallSources.2.memory r).type = _)
    rw [hmem]
    exact h r hr

theorem httpStays_initial (created : Memory) : HttpStays created (initial created) := by
  intro r hr
  refine ⟨hr, ?_⟩
  rintro ⟨c, hc⟩
  exact absurd hc (by simp only [initial, AList.lookup_empty, reduceCtorEq, not_false_eq_true])

/-- Under the invariant, an add stores the source by its kind exactly when the type field of an FTP
source reads `FTP`. -/
theorem sectionType_kept_iff {created : Memory} {m : SwordInstallSourceManager}
    (h : HttpStays created m) (is : SwordInstallSource) :
    sectionType (is.type m.memory) = sectionType (is.type created) ↔
      (is.type created = INSTALLSOURCE_TYPE_FTP → is.type m.memory = INSTALLSOURCE_TYPE_FTP) := by
  rw [sectionType_eq_iff]
  refine ⟨Iff.mpr, fun back => ⟨fun now => ?_, back⟩⟩
  by_cases hc : is.type created = INSTALLSOURCE_TYPE_FTP
  · exact hc
  · exact absurd now (h _ hc).1

theorem keepsTransport_iff {created : Memory} {m : SwordInstallSourceManager}
    (h : HttpStays created m) (call : SourceCall) :
    KeepsTransport created m call ↔ TypeRestored created m call := by
  cases call with
  | add is doReload =>
    exact (storedByKind_add_iff created m is doReload).trans (sectionType_kept_iff h is)
  | remove is doReload => exact Iff.rfl
  | update is edits =>
    refine (storedByKind_add_iff created _ is false).trans ?_
    have hedit := edit_memory_type is m edits is.installSource
    show sectionType ((m.edit is edits).memory is.installSource).type = _ ↔ _
    rw [hedit]
    exact sectionType_kept_iff h is
  | list => exact Iff.rfl

/-- **The transport kind of a source over a run.** In a run of adds, removals, updates and listings,
every add and update stores its source with the section type of the kind it was created with exactly
when every FTP source that is added or updated reads `FTP` at that moment. -/
theorem transport_kept_iff (created : Memory) (calls : List SourceCall) :
    Always step (KeepsTransport created) (initial created) calls ↔
      Always step (TypeRestored created) (initial created) calls :=
  always_iff (fun _ call h _ => httpStays_step h call) (fun _ call h => keepsTransport_iff h call)
    (httpStays_initial created)

/-- An FTP source as a caller makes it: the one of the repository's tests. -/
def testSource : Memory := fun _ => ⟨"test", "FTP", "foo.bar.local", "/foobar"⟩

/-- A source that is added and then updated through the same handle ends as an HTTP source: the add
has left `FTPSource` in the field that the update compares with `FTP`. -/
theorem transport_lost_on_update :
    ¬ Always step (KeepsTransport testSource) (initial testSource)
      [.add ⟨0, true⟩ true, .update ⟨0, false⟩ [.setSource "local.bar.foo"]] := by
  rintro ⟨-, h, -⟩
  exact absurd h.2 (by decide)

/-! ## The keys -/

/-- Each key of the map is the caption of the source stored under it. -/
def KeysMatch (m : SwordInstallSourceManager) : Prop :=
  ∀ c r, m.sources.lookup c = some r → (m.memory r).caption = c

/-- A map keyed by captions stores a source under at most one key. -/
theorem KeysMatch.unique {m : SwordInstallSourceManager} (h : KeysMatch m) {c c' : String} {r : Ref}
    (hc : m.sources.lookup c = some r) (hc' : m.sources.lookup c' = some r) : c = c' :=
  (h c r hc).symm.trans (h c' r hc')

/-- The handle a call is made on. -/
def subject : SourceCall → Option SwordInstallSource
  | .add is _ | .remove is _ | .update is _ => some is
  | .list => none

/-- The state in which the manager is called: an update comes after the edits of its source. -/
def called (m : SwordInstallSourceManager) : SourceCall → SwordInstallSourceManager
  | .update is edits => m.edit is edits
  | .add _ _ | .remove _ _ | .list => m

/-- The map after a call on a source: keyed by captions, no source stored twice, and the other
sources as they were, stored where they were, up to the entry under the caption of the call's own
source, which is the one the call is about. -/
structure Coherent (m m' : SwordInstallSourceManager) (is : SwordInstallSource) (caption : String) :
    Prop where
  keys : KeysMatch m'
  once : ∀ c c' r, m'.sources.lookup c = some r → m'.sources.lookup c' = some r → c = c'
  sources : ∀ r ≠ is.installSource, m'.memory r = m.memory r
  entries : ∀ c ≠ caption, ∀ r ≠ is.installSource,
    m'.sources.lookup c = some r ↔ m.sources.lookup c = some r

/-- After every add, removal or update the map is coherent. A listing owes nothing here. -/
def KeepsKeys (m : SwordInstallSourceManager) (call : SourceCall) : Prop :=
  ∀ is ∈ subject call, Coherent m (m.step call) is (is.caption (m.called call).memory)

/-- The call leaves every entry of another source, whatever its caption. -/
def DisplacesNone (m : SwordInstallSourceManager) (call : SourceCall) : Prop :=
  ∀ is ∈ subject call, ∀ c, ∀ r ≠ is.installSource,
    (m.step call).sources.lookup c = some r ↔ m.sources.lookup c = some r

/-- No other source is stored under the caption of the call's source. -/
def OwnCaption (m : SwordInstallSourceManager) (call : SourceCall) : Prop :=
  ∀ is ∈ subject call, ∀ r, m.sources.lookup (is.caption (m.called call).memory) = some r →
    r = is.installSource

/-- No update follows a change of the caption of a source that is stored. -/
def NotRenamed (m : SwordInstallSourceManager) : SourceCall → Prop
  | .update is edits =>
    (∃ c, m.sources.lookup c = some is.installSource) →
      is.caption (m.edit is edits).memory = is.caption m.memory
  | .add _ _ | .remove _ _ | .list => True

theorem KeysMatch.add {m : SwordInstallSourceManager} (h : KeysMatch m) (is : SwordInstallSource)
    (doReload : Bool) : KeysMatch (m.addInstallSource is doReload).1 := by
  intro c r hc
  rw [addInstallSource_sources, Dictionary.lookup_insert] at hc
  rw [addInstallSource_memory, setType_caption]
  split at hc
  · next hkey =>
    cases hc
    exact hkey.symm
  · exact h c r hc

theorem KeysMatch.remove {m : SwordInstallSourceManager} (h : KeysMatch m)
    (is : SwordInstallSource) (doReload : Bool) :
    KeysMatch (m.removeInstallSource is doReload) := by
  intro c r hc
  simp only [removeInstallSource, Dictionary.lookup_erase] at hc
  split at hc
  · cases hc
  · exact h c r hc

/-- Edits that leave the caption of a stored source alone keep the keys. -/
theorem KeysMatch.edit {m : SwordInstallSourceManager} (h : KeysMatch m) (is : SwordInstallSource)
    (edits : List SourceEdit)
    (kept : (∃ c, m.sources.lookup c = some is.installSource) →
      is.caption (m.edit is edits).memory = is.caption m.memory) :
    KeysMatch (m.edit is edits) := by
  intro c r hc
  by_cases hr : r = is.installSource
  · subst hr
    exact (kept ⟨c, hc⟩).trans (h c _ hc)
  · rw [edit_memory_of_ne hr]
    exact h c r hc

theorem KeysMatch.list {m : SwordInstallSourceManager} (h : KeysMatch m) :
    KeysMatch m.allInstallSources.2 := by
  intro c r hc
  rw [allInstallSources_caption]
  exact h c r hc

theorem KeysMatch.step {m : SwordInstallSourceManager} (h : KeysMatch m) {call : SourceCall}
    (ok : NotRenamed m call) : KeysMatch (m.step call) := by
  cases call with
  | add is doReload => exact h.add is doReload
  | remove is doReload => exact h.remove is doReload
  | update is edits => exact ((h.edit is edits ok).remove is false).add is false
  | list => exact h.list

/-- A call writes to no other source. -/
theorem step_memory_of_ne (m : SwordInstallSourceManager) {call : SourceCall}
    {is : SwordInstallSource} (hsubject : is ∈ subject call) {r : Ref}
    (hr : r ≠ is.installSource) : (m.step call).memory r = m.memory r := by
  cases call with
  | add is' doReload =>
    cases hsubject
    show (m.addInstallSource is doReload).1.memory r = _
    rw [addInstallSource_memory, setType_of_ne _ _ hr]
  | remove is' doReload => rfl
  | update is' edits =>
    cases hsubject
    show ((m.edit is edits).updateInstallSource is).1.memory r = _
    rw [updateInstallSource_memory, setType_of_ne _ _ hr, edit_memory_of_ne hr]
  | list => cases hsubject

/-- A call reaches the map under the caption its source has when it is made, and nowhere else. -/
theorem step_lookup_of_ne (m : SwordInstallSourceManager) {call : SourceCall}
    {is : SwordInstallSource} (hsubject : is ∈ subject call) {c : String}
    (hc : c ≠ is.caption (m.called call).memory) :
    (m.step call).sources.lookup c = m.sources.lookup c := by
  cases call with
  | add is' doReload =>
    cases hsubject
    show (m.addInstallSource is doReload).1.sources.lookup c = _
    rw [addInstallSource_sources, Dictionary.lookup_insert]
    exact if_neg hc
  | remove is' doReload =>
    cases hsubject
    show (m.sources.erase (is.caption m.memory)).lookup c = _
    rw [Dictionary.lookup_erase]
    exact if_neg hc
  | update is' edits =>
    cases hsubject
    have hne : c ≠ is.caption (m.edit is edits).memory := hc
    show ((m.edit is edits).updateInstallSource is).1.sources.lookup c = _
    rw [updateInstallSource_sources, Dictionary.lookup_insert, if_neg hne,
      Dictionary.lookup_erase, if_neg hne]
    rfl
  | list => cases hsubject

/-- Under that caption it leaves its own source, or nothing. -/
theorem step_lookup_own (m : SwordInstallSourceManager) {call : SourceCall}
    {is : SwordInstallSource} (hsubject : is ∈ subject call) {r : Ref}
    (h : (m.step call).sources.lookup (is.caption (m.called call).memory) = some r) :
    r = is.installSource := by
  cases call with
  | add is' doReload =>
    cases hsubject
    change (m.addInstallSource is doReload).1.sources.lookup (is.caption m.memory) = _ at h
    rw [addInstallSource_sources, AList.lookup_insert, Option.some.injEq] at h
    exact h.symm
  | remove is' doReload =>
    cases hsubject
    change (m.sources.erase (is.caption m.memory)).lookup (is.caption m.memory) = _ at h
    rw [AList.lookup_erase] at h
    cases h
  | update is' edits =>
    cases hsubject
    change ((m.edit is edits).updateInstallSource is).1.sources.lookup
      (is.caption (m.edit is edits).memory) = _ at h
    rw [updateInstallSource_sources, AList.lookup_insert, Option.some.injEq] at h
    exact h.symm
  | list => cases hsubject

/-- Every entry of the others is left exactly when none stands under the caption of the call's
source. -/
theorem displacesNone_iff (m : SwordInstallSourceManager) (call : SourceCall) :
    DisplacesNone m call ↔ OwnCaption m call := by
  constructor
  · intro h is hsubject r hlookup
    by_contra hr
    exact hr (step_lookup_own m hsubject ((h is hsubject _ r hr).mpr hlookup))
  · intro h is hsubject c r hr
    by_cases hc : c = is.caption (m.called call).memory
    · subst hc
      exact ⟨fun hafter => absurd (step_lookup_own m hsubject hafter) hr,
        fun hbefore => absurd (h is hsubject r hbefore) hr⟩
    · rw [step_lookup_of_ne m hsubject hc]

/-- A renamed source that was stored stays behind under its old caption, and its key is wrong. -/
theorem not_keysMatch_of_renamed {m : SwordInstallSourceManager} (h : KeysMatch m)
    {is : SwordInstallSource} {edits : List SourceEdit} {c : String}
    (stored : m.sources.lookup c = some is.installSource)
    (renamed : is.caption (m.edit is edits).memory ≠ is.caption m.memory) :
    ¬ KeysMatch ((m.edit is edits).updateInstallSource is).1 := by
  intro hk
  have hold : is.caption m.memory = c := h c _ stored
  rw [hold] at renamed
  have hbehind : ((m.edit is edits).updateInstallSource is).1.sources.lookup c =
      some is.installSource := by
    rw [updateInstallSource_sources, Dictionary.lookup_insert, if_neg renamed.symm,
      Dictionary.lookup_erase, if_neg renamed.symm]
    exact stored
  have hcap := hk c _ hbehind
  rw [updateInstallSource_memory, setType_caption] at hcap
  exact renamed hcap

theorem keepsKeys_iff {m : SwordInstallSourceManager} (h : KeysMatch m) (call : SourceCall) :
    KeepsKeys m call ↔ NotRenamed m call := by
  constructor
  · intro kept
    cases call with
    | update is edits =>
      rintro ⟨c, stored⟩
      by_contra renamed
      exact not_keysMatch_of_renamed h stored renamed (kept is rfl).keys
    | add _ _ => trivial
    | remove _ _ => trivial
    | list => trivial
  · intro ok is hsubject
    have hk := h.step ok
    exact ⟨hk, fun _ _ _ => hk.unique, fun r hr => step_memory_of_ne m hsubject hr,
      fun c hc r _ => by rw [step_lookup_of_ne m hsubject hc]⟩

theorem keysMatch_initial (created : Memory) : KeysMatch (initial created) := by
  intro c r hc
  exact absurd hc (by simp only [initial, AList.lookup_empty, reduceCtorEq, not_false_eq_true])

/-- **The keys of the source map over a run.** In a run in which sources are edited before they are
updated, the map is coherent after every add, removal and update exactly when no update follows a
change of the caption of a source that is stored. A source may share its caption with another: a
call on it then takes the entry over, and every entry of the others is left exactly when no call is
made on such a source. -/
theorem keys_match_iff (created : Memory) (calls : List SourceCall) :
    (Always step KeepsKeys (initial created) calls ↔
        Always step NotRenamed (initial created) calls) ∧
      (Always step (fun m call => KeepsKeys m call ∧ DisplacesNone m call) (initial created) calls ↔
        Always step (fun m call => NotRenamed m call ∧ OwnCaption m call)
          (initial created) calls) :=
  ⟨always_iff (fun _ _ h ok => h.step ok) (fun _ call h => keepsKeys_iff h call)
      (keysMatch_initial created),
    always_iff (fun _ _ h ok => h.step ok.1)
      (fun m call h => and_congr (keepsKeys_iff h call) (displacesNone_iff m call))
      (keysMatch_initial created)⟩

/-- A stored source that is renamed and then updated, as the update asks for, is stored twice
afterwards: the update erases the new caption and leaves the entry under the old one. -/
theorem key_stale_on_rename :
    ¬ Always step KeepsKeys (initial testSource)
      [.add ⟨0, true⟩ true, .update ⟨0, false⟩ [.setCaption "renamed"]] := by
  rintro ⟨-, h, -⟩
  have hkey := (h ⟨0, false⟩ rfl).keys "test" 0 (by decide)
  exact absurd hkey (by decide)

end ObjCSword.SwordInstallSourceManager
