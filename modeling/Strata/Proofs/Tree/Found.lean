/-
# What a walk finds

A walk finds a file when names lead to it from where the walk starts, through
directories that a walk enters (`Found`). In a tree whose names could stand in
directories it finds exactly these files, each at the path its names write
(`WellNamed.mem_walk`).
-/

import Strata.Proofs.Tree.Lookup
import Strata.Proofs.Tree.Walk

namespace Strata

/-- `Found entries names text`: from this listing, `names` lead through
directories that a walk enters to a file with this text. -/
inductive Found : List (String × Entry) → List String → Option String → Prop where
  | here {entries : List (String × Entry)} {name : String} {text : Option String} :
      (name, .file text) ∈ entries → Found entries [name] text
  | inside {entries inner : List (String × Entry)} {name : String} {names : List String}
      {text : Option String} :
      (name, .directory inner) ∈ entries → isSkippedDirectory name = false →
      Found inner names text → Found entries (name :: names) text

namespace Found

variable {entries : List (String × Entry)} {names : List String} {text : Option String}

theorem ne_nil (h : Found entries names text) : names ≠ [] := by
  cases h <;> exact List.cons_ne_nil _ _

/-- Nothing is found where nothing is listed. -/
theorem not_nil : ¬ Found [] names text := by
  intro h
  cases h with
  | here hfile => exact absurd hfile List.not_mem_nil
  | inside hdir => exact absurd hdir List.not_mem_nil

/-- What names lead to, behind the first of them. -/
theorem cons_iff {name : String} :
    Found entries (name :: names) text ↔
      (names = [] ∧ (name, .file text) ∈ entries) ∨
        ∃ inner, (name, .directory inner) ∈ entries ∧ isSkippedDirectory name = false ∧
          Found inner names text := by
  constructor
  · intro h
    cases h with
    | here hfile => exact .inl ⟨rfl, hfile⟩
    | inside hdir hentered hfound => exact .inr ⟨_, hdir, hentered, hfound⟩
  · rintro (⟨rfl, hfile⟩ | ⟨inner, hdir, hentered, hfound⟩)
    · exact .here hfile
    · exact .inside hdir hentered hfound

/-- Inside a directory of a listing a walk finds what it would find from there,
if it enters the directory. -/
theorem cons_directory_iff {name : String} {inner : List (String × Entry)}
    (hnodup : (entries.map Prod.fst).Nodup) (hdir : (name, .directory inner) ∈ entries) :
    Found entries (name :: names) text ↔
      isSkippedDirectory name = false ∧ Found inner names text := by
  have honly : ∀ entry, (name, entry) ∈ entries → entry = .directory inner := fun entry hentry =>
    Option.some.inj <| ((lookup_eq_some_iff_mem hnodup).2 hentry).symm.trans
      ((lookup_eq_some_iff_mem hnodup).2 hdir)
  rw [cons_iff]
  constructor
  · rintro (⟨-, hfile⟩ | ⟨inner', hdir', hentered, hfound⟩)
    · cases honly _ hfile
    · obtain rfl := Entry.directory.inj (honly _ hdir')
      exact ⟨hentered, hfound⟩
  · rintro ⟨hentered, hfound⟩
    exact .inr ⟨inner, hdir, hentered, hfound⟩

end Found

theorem Found.areNames {a : Entry} (ha : a.WellNamed) {names : List String} {text : Option String}
    (h : Found a.entries names text) : AreNames names := by
  induction ha generalizing names with
  | file => exact absurd h Found.not_nil
  | @directory entries hnodup hname hinner ih =>
    cases h with
    | here hfile =>
      exact List.forall_mem_singleton.2 (hname _ hfile)
    | inside hdir _ hfound =>
      exact List.forall_mem_cons.2 ⟨hname _ hdir, ih _ hdir hfound⟩

theorem Found.plain {a : Entry} (ha : a.Plain) {names : List String} {text : Option String}
    (h : Found a.entries names text) : ∀ name ∈ names, IsPlainName name := by
  induction ha generalizing names with
  | file => exact absurd h Found.not_nil
  | directory hname hinner ih =>
    cases h with
    | here hfile => exact List.forall_mem_singleton.2 (hname _ hfile)
    | inside hdir _ hfound => exact List.forall_mem_cons.2 ⟨hname _ hdir, ih _ hdir hfound⟩

/-! ### The files of a walk -/

/-- **A walk finds what names lead to**, at the path that the names write. -/
theorem Entry.WellNamed.mem_walk {a : Entry} (h : a.WellNamed) (dir : Path) (f : FoundFile) :
    f ∈ filesOfEntries dir a.entries ↔
      ∃ names, Found a.entries names f.text ∧ f.path = dir.descend names := by
  -- on the tree: an entry gives one file, or those of a walk below it, or nothing when it is
  -- skipped
  induction h generalizing dir with
  | file => exact iff_of_false List.not_mem_nil fun ⟨_, hfound, _⟩ => Found.not_nil hfound
  | @directory entries hnodup hname hinner ih =>
    rw [filesOfEntries_eq, List.mem_flatMap]
    constructor
    · rintro ⟨⟨name, entry⟩, he, hf⟩
      cases entry with
      | file text =>
        rw [filesOfEntry, List.mem_singleton] at hf
        subst hf
        exact ⟨[name], .here he, rfl⟩
      | directory inner =>
        rw [filesOfEntry_directory] at hf
        split at hf
        · exact absurd hf List.not_mem_nil
        · rename_i hentered
          obtain ⟨names, hfound, hpath⟩ := (ih _ he (dir.child name)).1 hf
          exact ⟨name :: names, .inside he (Bool.eq_false_iff.2 hentered) hfound, hpath⟩
    · rintro ⟨names, hfound, hpath⟩
      cases hfound with
      | @here _ name _ hfile =>
        refine ⟨_, hfile, ?_⟩
        rw [filesOfEntry, List.mem_singleton]
        cases f
        simp_all [Path.descend]
      | @inside _ inner name names _ hdir hentered hfound =>
        refine ⟨_, hdir, ?_⟩
        rw [filesOfEntry_directory, if_neg (by simp [hentered])]
        exact (ih _ hdir (dir.child name)).2 ⟨names, hfound, hpath⟩

end Strata
