import ObjCSword.Laws.InstallSources

/-!
# What a listing leaves to be saved

`allInstallSources` gives every FTP source its caller's spelling back in the object that is stored.
So what is saved after a listing is what was stored with that spelling (`saved_allInstallSources`),
and a listing is a query exactly in the states that store no source of the FTP section type.
-/

namespace ObjCSword.SwordInstallSourceManager

/-- A listing is seen in each stored source, and in nothing else. -/
theorem saved_allInstallSources (m : SwordInstallSourceManager) (key : String) :
    m.allInstallSources.2.saved key = (m.saved key).map restored := by
  have hsources : m.allInstallSources.2.sources = m.sources := rfl
  rw [saved, saved, hsources, Option.map_map]
  cases hstored : AList.lookup key m.sources with
  | none => rfl
  | some r =>
    have hmem : r ∈ m.sources.entries.map Sigma.snd := (mem_stored_iff m r).mpr ⟨key, hstored⟩
    show some (((m.sources.entries.map Sigma.snd).foldl listSource (∅, m.memory)).2 r) = _
    rw [foldl_listSource_memory, if_pos hmem]
    rfl

/-- The manager after some calls. -/
def after (m : SwordInstallSourceManager) (calls : List SourceCall) : SwordInstallSourceManager :=
  calls.foldl step m

/-- Any number of listings is as good as one. -/
theorem saved_listings (m : SwordInstallSourceManager) (n : Nat) (key : String) :
    (m.after (List.replicate (n + 1) .list)).saved key = (m.saved key).map restored := by
  induction n generalizing m with
  | zero => exact saved_allInstallSources m key
  | succ n ih =>
    have hstep : m.after (List.replicate (n + 1 + 1) .list) =
        m.allInstallSources.2.after (List.replicate (n + 1) .list) := rfl
    rw [hstep, ih, saved_allInstallSources, Option.map_map]
    congr 1
    funext o
    exact restored_restored o

theorem restored_eq_iff (o : InstallSource) :
    restored o = o ↔ o.type ≠ INSTALLSOURCE_SECTION_TYPE_FTP := by
  have hne : INSTALLSOURCE_TYPE_FTP ≠ INSTALLSOURCE_SECTION_TYPE_FTP := by decide
  constructor
  · intro hsame htype
    rw [restored, if_pos htype] at hsame
    exact hne ((congrArg InstallSource.type hsame).trans htype)
  · intro htype
    exact if_neg htype

/-- No source is stored as FTP: none was added or updated as such since it was last listed. -/
def NoSectionFtp (m : SwordInstallSourceManager) : Prop :=
  ∀ key r, AList.lookup key m.sources = some r →
    (m.memory r).type ≠ INSTALLSOURCE_SECTION_TYPE_FTP

/-- **Listing is a query** exactly where no source is stored with the FTP section type: no listing
then changes what is saved. The state is any, so also one that adds, removals, updates and listings
have led to. -/
theorem listings_saved_iff (m : SwordInstallSourceManager) :
    (∀ n key, (m.after (List.replicate n .list)).saved key = m.saved key) ↔ NoSectionFtp m := by
  constructor
  · intro hsaved key r hstored
    have hone := hsaved 1 key
    have hself : m.saved key = some (m.memory r) := by
      rw [saved, hstored, Option.map_some]
    rw [saved_listings, hself, Option.map_some, Option.some.injEq] at hone
    exact (restored_eq_iff _).mp hone
  · intro hnone n key
    cases n with
    | zero => rfl
    | succ n =>
      rw [saved_listings, saved]
      cases hstored : AList.lookup key m.sources with
      | none => rfl
      | some r => exact congrArg some ((restored_eq_iff _).mpr (hnone key r hstored))

/-- A source that was added as FTP is saved with another type once it was listed. -/
theorem type_lost_on_listing :
    ((initial testSource).after [.add ⟨0, true⟩ true]).saved "test" =
        some ⟨"test", "FTPSource", "foo.bar.local", "/foobar"⟩ ∧
      (((initial testSource).after [.add ⟨0, true⟩ true]).after [.list]).saved "test" =
        some ⟨"test", "FTP", "foo.bar.local", "/foobar"⟩ := by
  decide

end ObjCSword.SwordInstallSourceManager
