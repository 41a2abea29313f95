import ObjCSword.Lib.RetainCount
import ObjCSword.SwordInstallSource

/-!
# Who retains whom

The wrappers are counted references on each other, and name engine objects, which are not counted: a
`SwordManager` deletes its `sword::SWMgr` when it is deallocated if it made it (SwordManager.mm), a
`SwordKey` its key if it was given a new one (SwordKey.mm). A module retains the manager it was
looked up in (SwordModule.h), a `VerseEnumerator` its list key (VerseEnumerator.mm), a chapter its
book (SwordBibleChapter.m) and a book the array of its chapters (SwordBibleBook.mm); a copy of a key
retains nothing, nor does a temporary manager, nor a module with a status
(SwordInstallSourceManager.mm). The verse manager keeps the books that it makes
(SwordVerseManager.mm).

What is autoreleased counts as held by the client, whose pool it is, until the pool lets it go. An
engine's module is there while its `sword::SWMgr` is, so that stands for it. A message to an object
that was deallocated has no meaning; here nothing happens then.

Left out are the calls that give an object another engine object or another object to retain:
`initManager` of a manager that has its `sword::SWMgr`, `reloadManager`, which makes the engine's
modules anew, and `setSwManager:`; and the engine objects that belong to other engine objects: the
`sword::SWMgr` of a source that is not on the local disk, and the key of a module. A Bible's table
holds books that the verse manager keeps anyway.
-/

namespace ObjCSword

open Lib.RetainCount

/-- The classes, with the engine objects that their objects name. -/
inductive RetainedObject where
  | manager (swManager : Ref) (deleteSWMgr : Bool)
  | module (swMgr : Ref)
  | key (sk : Ref) (created : Bool)
  | verseEnumerator (sk : Ref)
  | bibleBook (chapterMax : Nat)
  | bibleChapter (number : Nat)
  | array
deriving DecidableEq, Repr

namespace RetainedObject

/-- The engine object that an object works with. -/
def engineObject : RetainedObject → Option Ref
  | manager swManager _ => some swManager
  | module swMgr => some swMgr
  | key sk _ => some sk
  | verseEnumerator sk => some sk
  | _ => none

/-- The engine object that is deleted in `dealloc`. -/
def deletes : RetainedObject → Option Ref
  | manager swManager deleteSWMgr => if deleteSWMgr then some swManager else none
  | key sk created => if created then some sk else none
  | _ => none

end RetainedObject

/-- The objects there are, and who refers to them. -/
structure RetainedObjects where
  heap : Heap RetainedObject
  /-- The references of the client. -/
  held : List Nat
  /-- The references that nobody gives up. -/
  fixed : List Nat
  /-- The address of the next engine object. -/
  next : Ref
  /-- `instance` of the managers, the default one. -/
  defaultInstance : Option Nat

/-- What a client does, with the objects by their numbers. -/
inductive ObjectCall where
  | initWithPath
  | initWithSWMgr (m : Nat)
  | swordManagerOfLocalSource
  | defaultManager
  | useAsDefaultManager (m : Nat)
  | moduleWithName (m : Nat)
  | moduleStatusInInstallSource
  | initWithSWModule (j : Nat)
  | newKey
  | clone (k : Nat)
  | verseEnumerator (k : Nat)
  | initWithBook (chapterMax : Nat)
  | booksForVersification (chapterMaxs : List Nat)
  | chapters (b : Nat)
  | retain (i : Nat)
  | release (i : Nat)
deriving DecidableEq, Repr

namespace RetainedObjects

def initial : RetainedObjects := ⟨Heap.empty, [], [], 0, none⟩

/-- The number of the next object. -/
def new (s : RetainedObjects) : Nat := s.heap.objects.length

/-- The object is there. -/
def Alive (s : RetainedObjects) (i : Nat) : Prop := s.heap.count i ≠ 0

instance (s : RetainedObjects) (i : Nat) : Decidable (s.Alive i) :=
  inferInstanceAs (Decidable (s.heap.count i ≠ 0))

/-- An object that can be sent a message. -/
def object (s : RetainedObjects) (i : Nat) : Option RetainedObject :=
  if s.Alive i then s.heap.kind i else none

/-- A new object of the client. -/
def make (s : RetainedObjects) (kind : RetainedObject) : RetainedObjects :=
  { s with heap := s.heap.alloc kind, held := s.new :: s.held }

/-- A new object that is never let go. -/
def makeFixed (s : RetainedObjects) (kind : RetainedObject) : RetainedObjects :=
  { s with heap := s.heap.alloc kind, fixed := s.new :: s.fixed }

/-- A new object that retains another one. -/
def makeOn (s : RetainedObjects) (kind : RetainedObject) (r : Nat) : RetainedObjects :=
  { s.make kind with heap := (s.heap.alloc kind).keep s.new r }

/-- `alloc` of an engine object. -/
def newEngineObject (s : RetainedObjects) : RetainedObjects := { s with next := s.next + 1 }

/-- A new chapter, which is added to an array. -/
def addChapter (s : RetainedObjects) (b array number : Nat) : RetainedObjects :=
  let chapter := s.new
  let s := s.makeOn (.bibleChapter number) b
  { s with heap := s.heap.keep array chapter }

/-- `chapters`, where they were not made before. The copy of the array is not told from it. -/
def makeChapters (s : RetainedObjects) (b chapterMax : Nat) : RetainedObjects :=
  let array := s.new
  let s := s.make .array
  let s := (List.range chapterMax).foldl (fun s i => s.addChapter b array (i + 1)) s
  { s with heap := s.heap.keep b array }

/-- One call. -/
def step (s : RetainedObjects) : ObjectCall → RetainedObjects
  | .initWithPath => s.newEngineObject.make (.manager s.next true)
  | .initWithSWMgr m =>
    match s.object m with
    | some (.manager swManager _) => s.make (.manager swManager false)
    | _ => s
  -- a new engine object for a source of the local disk
  | .swordManagerOfLocalSource => s.newEngineObject.make (.manager s.next false)
  | .defaultManager =>
    match s.defaultInstance with
    | none =>
      { s.newEngineObject.makeFixed (.manager s.next true) with defaultInstance := some s.new }
    | some _ => s
  | .useAsDefaultManager m =>
    match s.object m with
    | some (.manager _ _) => { s with defaultInstance := some m }
    | _ => s
  | .moduleWithName m =>
    match s.object m with
    | some (.manager swManager _) => s.makeOn (.module swManager) m
    | _ => s
  -- the first module of the list, for a source of the local disk; its temporary manager deletes
  -- nothing
  | .moduleStatusInInstallSource => s.newEngineObject.make (.module s.next)
  -- so are the other modules of such a list made
  | .initWithSWModule j =>
    match s.object j with
    | some (.module swMgr) => s.make (.module swMgr)
    | _ => s
  | .newKey => s.newEngineObject.make (.key s.next true)
  | .clone k =>
    match s.object k with
    | some (.key sk _) => s.make (.key sk false)
    | _ => s
  | .verseEnumerator k =>
    match s.object k with
    | some (.key sk _) => s.makeOn (.verseEnumerator sk) k
    | _ => s
  | .initWithBook chapterMax => s.make (.bibleBook chapterMax)
  -- a versification that was not asked for before: the books of the others are kept already
  | .booksForVersification chapterMaxs =>
    chapterMaxs.foldl (fun s chapterMax => s.makeFixed (.bibleBook chapterMax)) s
  | .chapters b =>
    match s.object b with
    | some (.bibleBook chapterMax) =>
      if s.heap.refs b = [] then s.makeChapters b chapterMax else s
    | _ => s
  | .retain i => if s.Alive i then { s with heap := s.heap.retain i, held := i :: s.held } else s
  | .release i =>
    if i ∈ s.held then { s with heap := s.heap.release i, held := s.held.erase i } else s

/-- The calls of a client, one after the other. -/
def run (s : RetainedObjects) (calls : List ObjectCall) : RetainedObjects := calls.foldl step s

/-- The engine objects that were deleted, the first one first. -/
def deleted (s : RetainedObjects) : List Ref :=
  s.heap.gone.filterMap fun i => (s.heap.kind i).bind RetainedObject.deletes

end RetainedObjects

end ObjCSword
