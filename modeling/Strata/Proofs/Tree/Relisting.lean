/-
# The same tree in another order

A directory lists its entries in an order of its own. Two entries are the same
tree when one becomes the other by listing directories in other orders
(`Entry.Relisted`). In a tree whose names could stand in a directory
(`Entry.WellNamed`), a path leads to the same entry then
(`Files.SameTree.find`).
-/

import Strata.Proofs.Lists
import Strata.Proofs.Outcome
import Strata.Proofs.Path
import Strata.Tree

namespace Strata

namespace Entry

/-- The entries of a directory; a file has none. -/
def entries : Entry → List (String × Entry)
  | file _ => []
  | directory entries => entries

/-- Every directory lists names only, and each once. -/
inductive WellNamed : Entry → Prop where
  | file (text : Option String) : WellNamed (.file text)
  | directory {entries : List (String × Entry)} :
      (entries.map Prod.fst).Nodup → (∀ e ∈ entries, IsName e.1) →
      (∀ e ∈ entries, WellNamed e.2) → WellNamed (.directory entries)

/-- The same tree up to the order of the listings: any listing, at the top or
further down, may be permuted, any number of times. -/
inductive Relisted : Entry → Entry → Prop where
  | refl (entry : Entry) : Relisted entry entry
  | trans {a b c : Entry} : Relisted a b → Relisted b c → Relisted a c
  | permute {entries entries' : List (String × Entry)} :
      entries.Perm entries' → Relisted (.directory entries) (.directory entries')
  | inside {before after : List (String × Entry)} {name : String} {a b : Entry} :
      Relisted a b →
      Relisted (.directory (before ++ (name, a) :: after))
        (.directory (before ++ (name, b) :: after))

/-- The names in a directory are distinct. -/
theorem WellNamed.nodup {a : Entry} (h : a.WellNamed) : (a.entries.map Prod.fst).Nodup := by
  cases h with
  | file => exact .nil
  | directory hnodup => exact hnodup

/-- Every entry of a directory has a name that a path can hold. -/
theorem WellNamed.isName {a : Entry} (h : a.WellNamed) {e : String × Entry}
    (he : e ∈ a.entries) : IsName e.1 := by
  cases h with
  | file => exact absurd he List.not_mem_nil
  | directory _ hname => exact hname e he

/-- The directories below are well named too. -/
theorem WellNamed.inner {a : Entry} (h : a.WellNamed) {e : String × Entry}
    (he : e ∈ a.entries) : e.2.WellNamed := by
  cases h with
  | file => exact absurd he List.not_mem_nil
  | directory _ _ hinner => exact hinner e he

/-- A directory with one entry. -/
theorem WellNamed.singleton {name : String} {a : Entry} (hname : IsName name) (h : a.WellNamed) :
    (Entry.directory [(name, a)]).WellNamed :=
  .directory (List.nodup_singleton _) (List.forall_mem_singleton.2 hname)
    (List.forall_mem_singleton.2 h)

namespace Relisted

/-- Listing the same entries in another order keeps all of this. -/
theorem wellNamed {a b : Entry} (h : a.Relisted b) (ha : a.WellNamed) : b.WellNamed := by
  induction h with
  | refl => exact ha
  | trans _ _ ih ih' => exact ih' (ih ha)
  | permute hperm =>
    refine .directory ?_ (fun e he => ?_) fun e he => ?_
    · exact (hperm.map Prod.fst).nodup_iff.1 ha.nodup
    · exact ha.isName (hperm.mem_iff.2 he)
    · exact ha.inner (hperm.mem_iff.2 he)
  | @inside before after name a b _ ih =>
    have hnodup := ha.nodup
    have hnames : ∀ e ∈ before ++ (name, a) :: after, IsName e.1 := fun _ he => ha.isName he
    have hinner : ∀ e ∈ before ++ (name, a) :: after, WellNamed e.2 := fun _ he => ha.inner he
    rw [List.forall_mem_append, List.forall_mem_cons] at hnames hinner
    refine .directory ?_ ?_ ?_
    · simpa [entries] using hnodup
    · exact List.forall_mem_append.2 ⟨hnames.1, List.forall_mem_cons.2 hnames.2⟩
    · obtain ⟨hbefore, hchanged, hafter⟩ := hinner
      exact List.forall_mem_append.2
        ⟨hbefore, List.forall_mem_cons.2 ⟨ih hchanged, hafter⟩⟩

/-- A file stays as it is, and a directory stays a directory. -/
theorem cases {a b : Entry} (h : a.Relisted b) :
    (∃ text, a = .file text ∧ b = .file text) ∨
      ∃ entries entries', a = .directory entries ∧ b = .directory entries' := by
  induction h with
  | refl a =>
    cases a with
    | file text => exact .inl ⟨text, rfl, rfl⟩
    | directory entries => exact .inr ⟨entries, entries, rfl, rfl⟩
  | trans _ _ ih ih' =>
    rcases ih with ⟨text, rfl, rfl⟩ | ⟨entries, entries', rfl, rfl⟩
    · rcases ih' with ⟨text', heq, rfl⟩ | ⟨entries, entries', heq, -⟩
      · obtain rfl := Entry.file.inj heq
        exact .inl ⟨text, rfl, rfl⟩
      · cases heq
    · rcases ih' with ⟨text', heq, -⟩ | ⟨_, entries'', -, rfl⟩
      · cases heq
      · exact .inr ⟨entries, entries'', rfl, rfl⟩
  | permute => exact .inr ⟨_, _, rfl, rfl⟩
  | inside => exact .inr ⟨_, _, rfl, rfl⟩

/-- A directory stays one. -/
theorem isDirectory {a b : Entry} (h : a.Relisted b) : a.isDirectory = b.isDirectory := by
  rcases h.cases with ⟨text, rfl, rfl⟩ | ⟨entries, entries', rfl, rfl⟩ <;> rfl

end Relisted

/-! ### Names of a listing -/

/-- What is found stays found. -/
theorem rel_refl (found : Option Entry) : Option.Rel Relisted found found := by
  cases found with
  | none => exact .none
  | some a => exact .some (.refl a)

/-- Two changes of the order, one after the other. -/
theorem rel_trans {x y z : Option Entry} (h : Option.Rel Relisted x y)
    (k : Option.Rel Relisted y z) : Option.Rel Relisted x z := by
  cases h with
  | none => exact k
  | some hab =>
    cases k with
    | some hbc => exact .some (hab.trans hbc)

/-- **A name means the same entry in another order.** -/
theorem Relisted.lookup {a b : Entry} (h : a.Relisted b) (ha : a.WellNamed) (name : String) :
    Option.Rel Relisted (a.entries.lookup name) (b.entries.lookup name) := by
  induction h with
  | refl a => exact rel_refl _
  | trans hab _ ih ih' => exact rel_trans (ih ha) (ih' (hab.wellNamed ha))
  | permute hperm =>
    rw [show _ = _ from lookup_eq_of_perm ha.nodup hperm name]
    exact rel_refl _
  | @inside before after name' a b hab =>
    simp only [entries, List.lookup_append, List.lookup_cons]
    cases before.lookup name with
    | some found => exact .some (.refl found)
    | none =>
      cases name == name' with
      | true => exact .some hab
      | false => exact rel_refl _

/-- The same tree, with names that could stand in directories. -/
structure SameTree (a b : Entry) : Prop where
  wellNamed : a.WellNamed
  relisted : a.Relisted b

/-- **Under every name the same is found.** The names are distinct, so the order cannot decide. -/
theorem SameTree.lookup {a b : Entry} (h : a.SameTree b) (name : String) :
    Option.Rel SameTree (a.entries.lookup name) (b.entries.lookup name) := by
  have hrel := h.relisted.lookup h.wellNamed name
  have hinner : ∀ inner, a.entries.lookup name = some inner → inner.WellNamed := fun _ hfound =>
    h.wellNamed.inner ((lookup_eq_some_iff_mem h.wellNamed.nodup).1 hfound)
  generalize a.entries.lookup name = x at hrel hinner
  generalize b.entries.lookup name = y at hrel
  cases hrel with
  | none => exact .none
  | some hab => exact .some ⟨hinner _ rfl, hab⟩

/-- What is a directory is one in both trees. -/
theorem SameTree.isDirectory {a b : Entry} (h : a.SameTree b) : a.isDirectory = b.isDirectory :=
  h.relisted.isDirectory

/-! ### Paths -/

/-- Two paths have led to the same entry, with the same directories around it. -/
structure SamePlace (p q : Entry × List Entry) : Prop where
  here : p.1.SameTree q.1
  around : List.Forall₂ SameTree p.2 q.2

/-- One part of a path leads to the same place in both trees, or to none in both. -/
theorem matches_walkPart {a b : Entry} {around around' : List Entry} (h : a.SameTree b)
    (haround : List.Forall₂ SameTree around around') (part : List Char) :
    Matches SamePlace (a.walkPart around part) (b.walkPart around' part) := by
  have hlookup := h.lookup (String.ofList part)
  rcases h.relisted.cases with ⟨text, rfl, rfl⟩ | ⟨entries, entries', rfl, rfl⟩
  · exact .error _
  · -- the cases of `walkPart`: stay, go up, a name that is too long, a name that is looked up
    by_cases hdot : part = [] ∨ part = ['.']
    · simp only [walkPart, if_pos hdot]
      exact .ok ⟨h, haround⟩
    · by_cases hup : part = ['.', '.']
      · simp only [walkPart, if_neg hdot, if_pos hup]
        cases haround with
        | nil => exact .ok ⟨h, .nil⟩
        | cons hout hrest => exact .ok ⟨hout, hrest⟩
      · by_cases hlong : maxNameBytes < (String.ofList part).utf8ByteSize
        · simp only [walkPart, if_neg hdot, if_neg hup, if_pos hlong]
          exact .error _
        · simp only [walkPart, if_neg hdot, if_neg hup, if_neg hlong]
          simp only [Entry.entries] at hlookup
          generalize entries.lookup (String.ofList part) = x at hlookup
          generalize entries'.lookup (String.ofList part) = y at hlookup
          cases hlookup with
          | none => exact .error _
          | some hab => exact .ok ⟨hab, .cons h haround⟩

/-- A whole path leads to the same place in both trees, or to none in both. -/
theorem matches_walkParts {a b : Entry} {around around' : List Entry} (h : a.SameTree b)
    (haround : List.Forall₂ SameTree around around') (parts : List (List Char)) :
    Matches SamePlace (a.walkParts around parts) (b.walkParts around' parts) := by
  induction parts generalizing a b around around' with
  | nil => exact .ok ⟨h, haround⟩
  | cons part rest ih =>
    have hpart := matches_walkPart h haround part
    simp only [walkParts]
    generalize a.walkPart around part = x at hpart
    generalize b.walkPart around' part = y at hpart
    cases hpart with
    | error e => exact .error e
    | ok hplace => exact ih hplace.here hplace.around

end Entry

namespace Files

/-- The same file system up to the order of the listings. -/
structure SameTree (files files' : Files) : Prop where
  top : files.top.SameTree files'.top
  workingDirectory : files.workingDirectory = files'.workingDirectory

variable {files files' : Files} (h : files.SameTree files')
include h

/-- **A path leads to the same entry in another order.** -/
theorem SameTree.find (path : Path) :
    Matches Entry.SameTree (files.find path) (files'.find path) := by
  have hplace : ∀ {x y : Except IoError (Entry × List Entry)}, Matches Entry.SamePlace x y →
      Matches Entry.SameTree (x.map Prod.fst) (y.map Prod.fst) := by
    intro x y hxy
    cases hxy with
    | error e => exact .error e
    | ok hplace => exact .ok hplace.here
  simp only [Files.find, ← h.workingDirectory]
  -- refused texts, absolute paths from the top, all others from the working directory
  by_cases hnul : path.text.toList.contains '\x00'
  · simp only [if_pos hnul]
    exact .error _
  · by_cases hempty : path.text.isEmpty
    · simp only [if_neg hnul, if_pos hempty]
      exact .error _
    · by_cases habs : path.isAbsolute
      · simp only [if_neg hnul, if_neg hempty, if_pos habs]
        exact hplace (Entry.matches_walkParts h.top .nil _)
      · simp only [if_neg hnul, if_neg hempty, if_neg habs]
        have hworking := Entry.matches_walkParts h.top .nil files.workingDirectory.parts
        generalize files.top.walkParts [] files.workingDirectory.parts = x at hworking
        generalize files'.top.walkParts [] files.workingDirectory.parts = y at hworking
        cases hworking with
        | error e => exact .error e
        | ok hwhere => exact hplace (Entry.matches_walkParts hwhere.here hwhere.around _)

/-- The two trees have their directories at the same paths. -/
theorem SameTree.isDirectory (path : Path) : files.isDirectory path = files'.isDirectory path := by
  have hfind := h.find path
  unfold Files.isDirectory
  generalize files.find path = x at hfind
  generalize files'.find path = y at hfind
  cases hfind with
  | error e => rfl
  | ok hsame => exact hsame.isDirectory

/-- They have their files at the same paths. -/
theorem SameTree.isFile (path : Path) : files.isFile path = files'.isFile path := by
  have hfind := h.find path
  unfold Files.isFile
  generalize files.find path = x at hfind
  generalize files'.find path = y at hfind
  cases hfind with
  | error e => rfl
  | ok hsame => exact congrArg (!·) hsame.isDirectory

/-- A file has the same text in both. -/
theorem SameTree.readText (path : Path) : files.readText path = files'.readText path := by
  have hfind := h.find path
  unfold Files.readText
  generalize files.find path = x at hfind
  generalize files'.find path = y at hfind
  cases hfind with
  | error e => rfl
  | ok hsame =>
    rcases hsame.relisted.cases with ⟨text, rfl, rfl⟩ | ⟨entries, entries', rfl, rfl⟩ <;> rfl

/-- A file has the same source in both, or none in both. -/
theorem SameTree.readSource (path : Path) : files.readSource path = files'.readSource path := by
  rw [Files.readSource, Files.readSource, h.readText]

/-- Two listings of the same directory. -/
def SameListing (entries entries' : List (String × Entry)) : Prop :=
  (Entry.directory entries).SameTree (.directory entries')

omit h in
/-- Nothing is listed in two ways only. -/
theorem SameListing.nil : SameListing [] [] :=
  ⟨.directory .nil (fun _ he => absurd he List.not_mem_nil)
    fun _ he => absurd he List.not_mem_nil, .refl _⟩

/-- A directory lists the same entries, in some order. -/
theorem SameTree.list? (path : Path) :
    Matches (Option.Rel SameListing) (files.list? path) (files'.list? path) := by
  have hfind := h.find path
  unfold Files.list?
  generalize files.find path = x at hfind
  generalize files'.find path = y at hfind
  cases hfind with
  | error e => cases e <;> first | exact .ok .none | exact .error _
  | ok hsame =>
    rcases hsame.relisted.cases with ⟨text, rfl, rfl⟩ | ⟨entries, entries', rfl, rfl⟩
    · exact .error _
    · exact .ok (.some hsame)

end Files

end Strata
