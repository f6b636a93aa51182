/-
# What patterns match

A pattern is tried in every way, in order of preference, until what follows it
matches too. `Pattern.Leads` says which ways there are, without the order: from
which cursor to which, and with which parts remembered. Trying finds a way that
exists (`Pattern.exists_of_matchThen`) and misses none (`Pattern.eq_none_of_matchThen`),
so where there is one way only, the order does not matter
(`Pattern.matchAt?_eq_of_unique`).

| way of | from a cursor to |
| --- | --- |
| `one set` | the one behind a character of `set` |
| `greedy set`, `lazy set` | those behind a run of characters of `set` |
| `at place` | itself, when it stands at `place` |
| `seq p q` | where `q` leads from where `p` leads |

The matches in a text are those from the start, a stretch without matches left out
(`Pattern.matchesAt_of_none`) or a match and those behind it
(`Pattern.matchesAt_of_match`). They are matches at places of the text
(`Pattern.exists_of_mem_matchesFrom`), and a text with a place where the pattern matches has
one there or before (`Pattern.exists_mem_matchesAt`).
-/

import Strata.Text.Pattern

namespace Strata
namespace Text

/-! ### Blanks -/

/-- The code points of the blanks. -/
def blankPoints : List Nat :=
  [9, 10, 11, 12, 13, 0x20, 0x85, 0xa0, 0x1680, 0x2000, 0x2001, 0x2002, 0x2003, 0x2004, 0x2005,
   0x2006, 0x2007, 0x2008, 0x2009, 0x200a, 0x2028, 0x2029, 0x202f, 0x205f, 0x3000]

/-- A set that has none of these code points has no blank. -/
theorem eq_false_of_isBlank {set : CharSet}
    (hset : ∀ n ∈ blankPoints, set (Char.ofNat n) = false) {x : Char} (h : isBlank x = true) :
    set x = false := by
  have hpoint : x.toNat ∈ blankPoints := by
    simp only [isBlank, Bool.or_eq_true, Bool.and_eq_true, decide_eq_true_eq, beq_iff_eq] at h
    simp only [blankPoints, List.mem_cons, List.not_mem_nil, or_false]
    omega
  rw [← Char.ofNat_toNat x]
  exact hset _ hpoint

/-- No blank belongs to a word. -/
theorem isWord_of_isBlank {x : Char} (h : isBlank x = true) : isWord x = false :=
  eq_false_of_isBlank (by decide +kernel) h

/-- No blank is a digit. -/
theorem isDigit_of_isBlank {x : Char} (h : isBlank x = true) : isDigit x = false :=
  eq_false_of_isBlank (by decide +kernel) h

/-! ### Cursors -/

/-- The second cursor stands behind `run`, which begins at the first one. -/
structure Cursor.Passes (c : Cursor) (run : List Char) (d : Cursor) : Prop where
  rest : c.rest = run ++ d.rest
  before : d.before = run.getLast?.or c.before
  position : d.position = c.position + run.length

namespace Cursor

variable {c d e : Cursor} {run xs ys : List Char}

/-- A cursor stands behind nothing of itself. -/
theorem Passes.refl (c : Cursor) : c.Passes [] c := ⟨rfl, rfl, rfl⟩

/-- The cursor behind the beginning of a text. -/
theorem exists_passes {rest : List Char} (h : c.rest = run ++ rest) :
    ∃ d, c.Passes run d ∧ d.rest = rest := ⟨⟨_, rest, _⟩, ⟨h, rfl, rfl⟩, rfl⟩

/-- Passing one run and then another is passing both. -/
theorem Passes.append (hx : c.Passes xs d) (hy : d.Passes ys e) : c.Passes (xs ++ ys) e where
  rest := by rw [hx.rest, hy.rest, List.append_assoc]
  before := by
    rw [hy.before, hx.before, List.getLast?_append]
    cases ys.getLast? <;> rfl
  position := by rw [hy.position, hx.position, List.length_append, Nat.add_assoc]

/-- A cursor is told by what it passes. -/
theorem Passes.unique (h : c.Passes run d) (h' : c.Passes run e) : d = e := by
  have hrest : d.rest = e.rest := List.append_cancel_left (h.rest.symm.trans h'.rest)
  have hbefore : d.before = e.before := h.before.trans h'.before.symm
  have hposition : d.position = e.position := h.position.trans h'.position.symm
  cases d
  cases e
  exact Cursor.mk.injEq .. ▸ ⟨hbefore, hrest, hposition⟩

/-- Between two runs that are passed there is a cursor. -/
theorem Passes.exists_between (h : c.Passes (xs ++ ys) e) :
    ∃ d, c.Passes xs d ∧ d.Passes ys e := by
  obtain ⟨d, hd, hrest⟩ := exists_passes (h.rest.trans (List.append_assoc ..))
  obtain ⟨e', he, hrest'⟩ := exists_passes hrest
  exact ⟨d, hd, (hd.append he).unique h ▸ he⟩

/-- Behind the first character that is passed there is a cursor. -/
theorem Passes.exists_behind_first {x : Char} (h : c.Passes (x :: ys) e) :
    ∃ d, c.Passes [x] d ∧ d.Passes ys e :=
  Passes.exists_between (List.singleton_append ▸ h)

/-- What is left to pass behind a part of what is passed. -/
theorem Passes.behind (h : c.Passes (xs ++ ys) e) (hx : c.Passes xs d) : d.Passes ys e := by
  obtain ⟨d', hx', hy⟩ := h.exists_between
  exact hx'.unique hx ▸ hy

/-- A cursor that passes nothing stays. -/
theorem Passes.eq_of_nil (h : c.Passes [] d) : d = c := h.unique (.refl c)

/-- The span to a cursor is the run that is passed. -/
theorem Passes.spanTo (h : c.Passes run d) : c.spanTo d = ⟨c.position, run⟩ := by
  have hlength : d.position - c.position = run.length := by rw [h.position]; omega
  rw [Cursor.spanTo, hlength, h.rest, List.take_left]

end Cursor

/-! ### Runs of a set -/

/-- The second cursor stands behind a run of characters of the set. -/
def Cursor.Runs (set : CharSet) (c d : Cursor) : Prop :=
  ∃ run, (∀ x ∈ run, set x = true) ∧ c.Passes run d

/-- A run is nothing, or a character of the set and a run behind it. -/
theorem Cursor.runs_cons_iff {set : CharSet} {before : Option Char} {x : Char} {rest : List Char}
    {n : Nat} {d : Cursor} :
    Cursor.Runs set ⟨before, x :: rest, n⟩ d ↔
      d = ⟨before, x :: rest, n⟩ ∨ set x = true ∧ Cursor.Runs set ⟨some x, rest, n + 1⟩ d := by
  have hone : Cursor.Passes ⟨before, x :: rest, n⟩ [x] ⟨some x, rest, n + 1⟩ := ⟨rfl, rfl, rfl⟩
  constructor
  · rintro ⟨run, hrun, hpasses⟩
    match run, hrun, hpasses with
    | [], _, hpasses => exact .inl hpasses.eq_of_nil
    | y :: run, hrun, hpasses =>
      obtain ⟨hy, hrest⟩ := List.forall_mem_cons.1 hrun
      obtain rfl : x = y := (List.cons.inj hpasses.rest).1
      obtain ⟨e, he, hbehind⟩ := hpasses.exists_behind_first
      obtain rfl := he.unique hone
      exact .inr ⟨hy, run, hrest, hbehind⟩
  · rintro (rfl | ⟨hx, run, hrun, hpasses⟩)
    · exact ⟨[], by simp, .refl _⟩
    · exact ⟨x :: run, List.forall_mem_cons.2 ⟨hx, hrun⟩, hone.append hpasses⟩

/-- At the end of a text only the empty run is left. -/
theorem Cursor.runs_nil_iff {set : CharSet} {before : Option Char} {n : Nat} {d : Cursor} :
    Cursor.Runs set ⟨before, [], n⟩ d ↔ d = ⟨before, [], n⟩ := by
  constructor
  · rintro ⟨run, -, hpasses⟩
    obtain rfl : run = [] := (List.append_eq_nil_iff.1 hpasses.rest.symm).1
    exact hpasses.eq_of_nil
  · rintro rfl
    exact ⟨[], by simp, .refl _⟩

/-- A greedy run reaches the cursors behind the runs of its set. -/
theorem mem_reachFrom {set : CharSet} {nearer : List Cursor} {before : Option Char}
    {rest : List Char} {n : Nat} {d : Cursor} :
    d ∈ reachFrom set nearer before rest n ↔
      d ∈ nearer ∨ Cursor.Runs set ⟨before, rest, n⟩ d := by
  induction rest generalizing nearer before n with
  | nil => rw [reachFrom, Cursor.runs_nil_iff, List.mem_cons, or_comm]
  | cons x rest ih =>
    rw [reachFrom, Cursor.runs_cons_iff]
    split
    · rename_i hx
      rw [ih, List.mem_cons, or_comm (a := d = _), or_assoc]
      simp [hx]
    · rename_i hx
      rw [List.mem_cons, or_comm]
      simp [hx]

/-- A lazy run finds an answer behind a run of its set. -/
theorem exists_of_nearestFrom {α : Type} {set : CharSet} {k : Cursor → Option α}
    {before : Option Char} {rest : List Char} {n : Nat} {a : α}
    (h : nearestFrom set k before rest n = some a) :
    ∃ d, Cursor.Runs set ⟨before, rest, n⟩ d ∧ k d = some a := by
  induction rest generalizing before n with
  | nil => exact ⟨_, Cursor.runs_nil_iff.2 rfl, h⟩
  | cons x rest ih =>
    rw [nearestFrom] at h
    split at h
    · rename_i hk
      exact ⟨_, Cursor.runs_cons_iff.2 (.inl rfl), hk.trans h⟩
    · split at h
      · rename_i hx
        obtain ⟨d, hd, hk⟩ := ih h
        exact ⟨d, Cursor.runs_cons_iff.2 (.inr ⟨hx, hd⟩), hk⟩
      · cases h

/-- A lazy run without an answer has none behind any run of its set. -/
theorem eq_none_of_nearestFrom {α : Type} {set : CharSet} {k : Cursor → Option α}
    {before : Option Char} {rest : List Char} {n : Nat} {d : Cursor}
    (h : nearestFrom set k before rest n = none)
    (hd : Cursor.Runs set ⟨before, rest, n⟩ d) : k d = none := by
  induction rest generalizing before n with
  | nil => exact Cursor.runs_nil_iff.1 hd ▸ h
  | cons x rest ih =>
    rw [nearestFrom] at h
    split at h
    · cases h
    · rename_i hk
      rcases Cursor.runs_cons_iff.1 hd with rfl | ⟨hx, hd⟩
      · exact hk
      · rw [if_pos hx] at h
        exact ih h hd

/-! ### The ways of a pattern -/

namespace Pattern

/-- The ways to match a pattern: from which cursor, with which parts remembered, to
which. -/
def Leads : Pattern → Cursor → Captures → Cursor → Captures → Prop
  | .empty, c, caps, d, caps' => d = c ∧ caps' = caps
  | .one set, c, caps, d, caps' => (∃ x, set x = true ∧ c.Passes [x] d) ∧ caps' = caps
  | .greedy set, c, caps, d, caps' | .lazy set, c, caps, d, caps' => c.Runs set d ∧ caps' = caps
  | .at place, c, caps, d, caps' => place.holds c = true ∧ d = c ∧ caps' = caps
  | .seq p q, c, caps, d, caps' =>
    ∃ e caps'', p.Leads c caps e caps'' ∧ q.Leads e caps'' d caps'
  | .either p q, c, caps, d, caps' => p.Leads c caps d caps' ∨ q.Leads c caps d caps'
  | .named name p, c, caps, d, caps' =>
    ∃ caps'', p.Leads c caps d caps'' ∧ caps' = (name, c.spanTo d) :: caps''

variable {p : Pattern} {c d : Cursor} {caps caps' : Captures}

/-- **Trying finds a way that exists.** -/
theorem exists_of_matchThen {α : Type} {k : Cursor → Captures → Option α} {a : α}
    (h : p.matchThen k c caps = some a) :
    ∃ d caps', p.Leads c caps d caps' ∧ k d caps' = some a := by
  -- on the pattern: what follows is any continuation, so that the first half of a sequence may be
  -- followed by the second one
  induction p generalizing k c caps a with
  | empty => exact ⟨c, caps, ⟨rfl, rfl⟩, h⟩
  | one set =>
    rw [matchThen] at h
    split at h
    · cases h
    · rename_i x rest hrest
      split at h
      · rename_i hx
        exact ⟨⟨some x, rest, c.position + 1⟩, caps, ⟨⟨x, hx, hrest, rfl, rfl⟩, rfl⟩, h⟩
      · cases h
  | greedy set =>
    obtain ⟨d, hd, hk⟩ := List.exists_of_findSome?_eq_some h
    exact ⟨d, caps, ⟨(mem_reachFrom.1 hd).resolve_left List.not_mem_nil, rfl⟩, hk⟩
  | lazy set =>
    obtain ⟨d, hd, hk⟩ := exists_of_nearestFrom h
    exact ⟨d, caps, ⟨hd, rfl⟩, hk⟩
  | «at» place =>
    rw [matchThen] at h
    split at h
    · rename_i hplace
      exact ⟨c, caps, ⟨hplace, rfl, rfl⟩, h⟩
    · cases h
  | seq p q ihp ihq =>
    obtain ⟨e, caps'', hp, h⟩ := ihp h
    obtain ⟨d, caps', hq, hk⟩ := ihq h
    exact ⟨d, caps', ⟨e, caps'', hp, hq⟩, hk⟩
  | either p q ihp ihq =>
    rw [matchThen] at h
    split at h
    · rename_i hp
      obtain ⟨d, caps', hp, hk⟩ := ihp hp
      exact ⟨d, caps', .inl hp, hk.trans h⟩
    · obtain ⟨d, caps', hq, hk⟩ := ihq h
      exact ⟨d, caps', .inr hq, hk⟩
  | named name p ih =>
    obtain ⟨d, caps', hp, hk⟩ := ih h
    exact ⟨d, _, ⟨caps', hp, rfl⟩, hk⟩

/-- **Trying misses no way.** -/
theorem eq_none_of_matchThen {α : Type} {k : Cursor → Captures → Option α}
    (h : p.matchThen k c caps = none) (hp : p.Leads c caps d caps') : k d caps' = none := by
  -- on the pattern, again for every continuation
  induction p generalizing k c caps d caps' with
  | empty =>
    obtain ⟨rfl, rfl⟩ := hp
    exact h
  | one set =>
    obtain ⟨⟨x, hx, hpasses⟩, rfl⟩ := hp
    have hd : d = ⟨some x, d.rest, c.position + 1⟩ :=
      hpasses.unique ⟨hpasses.rest, rfl, rfl⟩
    rw [matchThen, hpasses.rest] at h
    simp only [List.cons_append, List.nil_append, hx, if_true] at h
    rwa [hd]
  | greedy set =>
    obtain ⟨hd, rfl⟩ := hp
    exact List.findSome?_eq_none_iff.1 h d (mem_reachFrom.2 (.inr hd))
  | lazy set =>
    obtain ⟨hd, rfl⟩ := hp
    exact eq_none_of_nearestFrom h hd
  | «at» place =>
    obtain ⟨hplace, rfl, rfl⟩ := hp
    rwa [matchThen, if_pos hplace] at h
  | seq p q ihp ihq =>
    obtain ⟨e, caps'', hp, hq⟩ := hp
    exact ihq (ihp h hp) hq
  | either p q ihp ihq =>
    rw [matchThen] at h
    split at h
    · cases h
    · rename_i hnone
      exact hp.elim (ihp hnone) (ihq h)
  | named name p ih =>
    obtain ⟨caps'', hp, rfl⟩ := hp
    exact ih (k := fun d caps => k d ((name, c.spanTo d) :: caps)) h hp

/-- A pattern fails at a cursor exactly when it leads nowhere from there. -/
theorem matchAt?_eq_none_iff :
    p.matchAt? c = none ↔ ∀ d caps', ¬ p.Leads c [] d caps' := by
  constructor
  · intro h d caps' hp
    cases eq_none_of_matchThen h hp
  · intro h
    refine Option.eq_none_iff_forall_ne_some.2 fun m hm => ?_
    obtain ⟨d, caps', hp, -⟩ := exists_of_matchThen hm
    exact h d caps' hp

/-- **Where there is one way only, it is the match.** -/
theorem matchAt?_eq_of_unique (hp : p.Leads c [] d caps')
    (hunique : ∀ e caps'', p.Leads c [] e caps'' → e = d ∧ caps'' = caps') :
    p.matchAt? c = some ⟨c.spanTo d, caps'⟩ := by
  cases h : p.matchAt? c with
  | none => exact absurd hp (matchAt?_eq_none_iff.1 h d caps')
  | some m =>
    obtain ⟨e, caps'', he, hm⟩ := exists_of_matchThen h
    obtain ⟨rfl, rfl⟩ := hunique e caps'' he
    exact hm.symm

/-! ### Sequences and texts -/

@[simp] theorem leads_sequence_nil :
    (sequence []).Leads c caps d caps' ↔ d = c ∧ caps' = caps := Iff.rfl

@[simp] theorem leads_sequence_cons {ps : List Pattern} :
    (sequence (p :: ps)).Leads c caps d caps' ↔
      ∃ e caps'', p.Leads c caps e caps'' ∧ (sequence ps).Leads e caps'' d caps' := by
  cases ps with
  | nil => simp [sequence, Leads]
  | cons q ps => rfl

/-- A sequence of two parts leads where the second part leads from where the first one does. -/
theorem leads_sequence_append {ps qs : List Pattern} :
    (sequence (ps ++ qs)).Leads c caps d caps' ↔
      ∃ e caps'', (sequence ps).Leads c caps e caps'' ∧ (sequence qs).Leads e caps'' d caps' := by
  induction ps generalizing c caps with
  | nil => simp [and_assoc]
  | cons p ps ih =>
    simp only [List.cons_append, leads_sequence_cons, ih]
    constructor
    · rintro ⟨e, caps₁, hp, e', caps₂, hps, hqs⟩
      exact ⟨e', caps₂, ⟨e, caps₁, hp, hps⟩, hqs⟩
    · rintro ⟨e', caps₂, ⟨e, caps₁, hp, hps⟩, hqs⟩
      exact ⟨e, caps₁, hp, e', caps₂, hps, hqs⟩

/-- A text is passed as it is written. -/
@[simp] theorem leads_text {s : String} :
    (text s).Leads c caps d caps' ↔ c.Passes s.toList d ∧ caps' = caps := by
  have hchars : ∀ (cs : List Char) (c : Cursor) (caps : Captures),
      (sequence (cs.map fun x => .one (· == x))).Leads c caps d caps' ↔
        c.Passes cs d ∧ caps' = caps := by
    intro cs
    induction cs with
    | nil =>
      intro c caps
      exact and_congr_left fun _ => ⟨fun h => h ▸ .refl c, fun h => h.eq_of_nil⟩
    | cons x cs ih =>
      intro c caps
      simp only [List.map_cons, leads_sequence_cons, ih]
      constructor
      · rintro ⟨e, _, ⟨⟨y, hy, hone⟩, rfl⟩, hpasses, rfl⟩
        obtain rfl : y = x := by simpa using hy
        exact ⟨hone.append hpasses, rfl⟩
      · rintro ⟨hpasses, rfl⟩
        obtain ⟨e, hone, hpasses⟩ := hpasses.exists_behind_first
        exact ⟨e, _, ⟨⟨x, by simp, hone⟩, rfl⟩, hpasses, rfl⟩
  exact hchars s.toList c caps

/-- Where a choice of two words leads. -/
theorem leads_either_text {s t : String} :
    (Pattern.either (.text s) (.text t)).Leads c caps d caps' ↔
      ∃ w, (w = s.toList ∨ w = t.toList) ∧ c.Passes w d ∧ caps' = caps := by
  rw [Leads, leads_text, leads_text]
  constructor
  · rintro (h | h)
    · exact ⟨_, .inl rfl, h⟩
    · exact ⟨_, .inr rfl, h⟩
  · rintro ⟨w, rfl | rfl, h⟩
    · exact .inl h
    · exact .inr h

/-- A run of at least one character. -/
theorem leads_greedyPlus {set : CharSet} :
    (greedyPlus set).Leads c caps d caps' ↔
      ∃ run, run ≠ [] ∧ (∀ x ∈ run, set x = true) ∧ c.Passes run d ∧ caps' = caps := by
  constructor
  · rintro ⟨e, _, ⟨⟨x, hx, hone⟩, rfl⟩, ⟨run, hrun, hpasses⟩, rfl⟩
    exact ⟨x :: run, List.cons_ne_nil _ _, List.forall_mem_cons.2 ⟨hx, hrun⟩,
      hone.append hpasses, rfl⟩
  · rintro ⟨run, hne, hrun, hpasses, rfl⟩
    obtain ⟨x, run, rfl⟩ := List.exists_cons_of_ne_nil hne
    obtain ⟨hx, hrun⟩ := List.forall_mem_cons.1 hrun
    obtain ⟨e, hone, hbehind⟩ := hpasses.exists_behind_first
    exact ⟨e, _, ⟨⟨x, hx, hone⟩, rfl⟩, ⟨run, hrun, hbehind⟩, rfl⟩

/-- A named run is remembered. -/
theorem leads_named_greedyPlus {name : String} {set : CharSet} :
    (Pattern.named name (greedyPlus set)).Leads c caps d caps' ↔
      ∃ run, run ≠ [] ∧ (∀ x ∈ run, set x = true) ∧ c.Passes run d ∧
        caps' = (name, ⟨c.position, run⟩) :: caps := by
  constructor
  · rintro ⟨_, h, rfl⟩
    obtain ⟨run, hne, hrun, hpasses, rfl⟩ := leads_greedyPlus.1 h
    exact ⟨run, hne, hrun, hpasses, by rw [hpasses.spanTo]⟩
  · rintro ⟨run, hne, hrun, hpasses, rfl⟩
    exact ⟨_, leads_greedyPlus.2 ⟨run, hne, hrun, hpasses, rfl⟩, by rw [hpasses.spanTo]⟩

/-- A run of as few characters as possible has the same ways. -/
theorem leads_named_lazyPlus {name : String} {set : CharSet} :
    (Pattern.named name (lazyPlus set)).Leads c caps d caps' ↔
      ∃ run, run ≠ [] ∧ (∀ x ∈ run, set x = true) ∧ c.Passes run d ∧
        caps' = (name, ⟨c.position, run⟩) :: caps :=
  leads_named_greedyPlus

/-! ### What a pattern consumes -/

/-- Every way of a pattern passes a stretch of text. -/
theorem Leads.exists_passes (h : p.Leads c caps d caps') : ∃ run, c.Passes run d := by
  induction p generalizing c caps d caps' with
  | empty => exact ⟨[], h.1 ▸ .refl c⟩
  | one set =>
    obtain ⟨⟨x, -, hpasses⟩, -⟩ := h
    exact ⟨[x], hpasses⟩
  | greedy set | lazy set =>
    obtain ⟨⟨run, -, hpasses⟩, -⟩ := h
    exact ⟨run, hpasses⟩
  | «at» place => exact ⟨[], h.2.1 ▸ .refl c⟩
  | seq p q ihp ihq =>
    obtain ⟨e, _, hp, hq⟩ := h
    obtain ⟨xs, hxs⟩ := ihp hp
    obtain ⟨ys, hys⟩ := ihq hq
    exact ⟨xs ++ ys, hxs.append hys⟩
  | either p q ihp ihq => exact h.elim ihp ihq
  | named name p ih =>
    obtain ⟨_, hp, -⟩ := h
    exact ih hp

end Pattern

/-! ### The matches in a text -/

namespace Pattern

variable {p : Pattern} {c d : Cursor} {run : List Char}

/-- The matches from a cursor on. -/
def matchesAt (p : Pattern) (c : Cursor) : List Match :=
  p.matchesFrom 0 c.before c.rest c.position

/-- What belongs to a match is passed over. -/
theorem matchesFrom_of_passes (h : c.Passes run d) :
    p.matchesFrom run.length c.before c.rest c.position = p.matchesAt d := by
  induction run generalizing c with
  | nil => rw [h.eq_of_nil]; rfl
  | cons x run ih =>
    obtain ⟨e, hone, hrun⟩ := h.exists_behind_first
    rw [hone.rest, List.length_cons, List.singleton_append, matchesFrom]
    have he : e.before = some x := hone.before
    rw [← ih hrun, he, hone.position]
    rfl

/-- **A stretch in which no match begins is left out.** -/
theorem matchesAt_of_none (h : c.Passes run d)
    (hnone : ∀ xs ys e, run = xs ++ ys → ys ≠ [] → c.Passes xs e → p.matchAt? e = none) :
    p.matchesAt c = p.matchesAt d := by
  induction run generalizing c with
  | nil => rw [h.eq_of_nil]
  | cons x run ih =>
    obtain ⟨e, hone, hrun⟩ := h.exists_behind_first
    have hhere : p.matchAt? ⟨c.before, x :: e.rest, c.position⟩ = none := by
      have hc : c = ⟨c.before, x :: e.rest, c.position⟩ := by
        rw [← List.singleton_append, ← hone.rest]
      exact hc ▸ hnone [] (x :: run) c rfl (List.cons_ne_nil _ _) (.refl c)
    have hskip : p.matchesAt c = p.matchesAt e := by
      have he : e.before = some x := hone.before
      rw [matchesAt, hone.rest, List.singleton_append, matchesFrom, hhere]
      rw [matchesAt, he, hone.position]
      rfl
    rw [hskip]
    refine ih hrun fun xs ys e' hsplit hys hpasses => ?_
    exact hnone (x :: xs) ys e' (by rw [hsplit, List.cons_append]) hys (hone.append hpasses)

/-- Where a pattern fails, its matches are those behind the next character. -/
theorem matchesAt_of_no_match {x : Char} (h : c.Passes [x] d) (hnone : p.matchAt? c = none) :
    p.matchesAt c = p.matchesAt d := by
  refine matchesAt_of_none h fun xs ys e hsplit hys hpasses => ?_
  obtain rfl : xs = [] := by
    cases xs with
    | nil => rfl
    | cons y xs => exact absurd (List.append_eq_nil_iff.1 (List.cons.inj hsplit).2.symm).2 hys
  rwa [hpasses.eq_of_nil]

/-- **A match is followed by the matches behind it.** -/
theorem matchesAt_of_match {m : Match} (h : c.Passes run d) (hrun : run ≠ [])
    (hmatch : p.matchAt? c = some m) (hlength : m.whole.text.length = run.length) :
    p.matchesAt c = m :: p.matchesAt d := by
  obtain ⟨x, run, rfl⟩ := List.exists_cons_of_ne_nil hrun
  obtain ⟨e, hone, hpasses⟩ := h.exists_behind_first
  have hc : c = ⟨c.before, x :: e.rest, c.position⟩ := by
    rw [← List.singleton_append, ← hone.rest]
  rw [hc] at hmatch
  have he : e.before = some x := hone.before
  have hskip : m.whole.text.length - 1 = run.length := by rw [hlength]; rfl
  rw [matchesAt, hone.rest, List.singleton_append, matchesFrom, hmatch,
    ← matchesFrom_of_passes hpasses, he, hone.position, ← hskip]
  rfl

/-- What is among the matches is a match at a cursor behind. -/
theorem exists_of_mem_matchesFrom {skip : Nat} {m : Match}
    (h : m ∈ p.matchesFrom skip c.before c.rest c.position) :
    ∃ run e, c.Passes run e ∧ p.matchAt? e = some m := by
  obtain ⟨before, rest, n⟩ := c
  dsimp only at h
  -- on the text, for any number of characters that are passed over
  induction rest generalizing skip before n with
  | nil =>
    cases skip with
    | zero => exact ⟨[], _, .refl _, Option.mem_toList.1 h⟩
    | succ skip => cases h
  | cons x rest ih =>
    have hone : Cursor.Passes ⟨before, x :: rest, n⟩ [x] ⟨some x, rest, n + 1⟩ := ⟨rfl, rfl, rfl⟩
    have hbehind : ∀ skip, m ∈ p.matchesFrom skip (some x) rest (n + 1) →
        ∃ run e, Cursor.Passes ⟨before, x :: rest, n⟩ run e ∧ p.matchAt? e = some m := by
      intro skip hmem
      obtain ⟨run, e, hpasses, hmatch⟩ := ih _ _ hmem
      exact ⟨_, e, hone.append hpasses, hmatch⟩
    cases skip with
    | succ skip => exact hbehind skip h
    | zero =>
      rw [matchesFrom] at h
      split at h
      · rename_i m' hmatch
        rcases List.mem_cons.1 h with rfl | hmem
        · exact ⟨[], _, .refl _, hmatch⟩
        · exact hbehind _ hmem
      · exact hbehind 0 h

/-- **Where the pattern matches behind a stretch, a match is found** there or before. -/
theorem exists_mem_matchesAt {m : Match} (h : c.Passes run d) (hmatch : p.matchAt? d = some m) :
    ∃ xs e m', xs <+: run ∧ c.Passes xs e ∧ p.matchAt? e = some m' ∧ m' ∈ p.matchesAt c := by
  -- on the stretch: an earlier match is found first and may hide the one behind it
  induction run generalizing c with
  | nil =>
    obtain rfl := h.eq_of_nil
    refine ⟨[], d, m, List.nil_prefix, .refl d, hmatch, ?_⟩
    obtain ⟨before, rest, n⟩ := d
    cases rest with
    | nil =>
      rw [matchesAt, matchesFrom, hmatch]
      exact List.mem_cons_self
    | cons x rest =>
      rw [matchesAt, matchesFrom, hmatch]
      exact List.mem_cons_self
  | cons x run ih =>
    obtain ⟨e, hone, hpasses⟩ := h.exists_behind_first
    cases hhere : p.matchAt? c with
    | some m' =>
      refine ⟨[], c, m', List.nil_prefix, .refl c, hhere, ?_⟩
      obtain ⟨before, rest, n⟩ := c
      obtain rfl : rest = x :: e.rest := hone.rest
      rw [matchesAt, matchesFrom, hhere]
      exact List.mem_cons_self
    | none =>
      obtain ⟨xs, e', m', hxs, hpasses', hmatch', hmem⟩ := ih hpasses
      refine ⟨x :: xs, e', m', (List.prefix_cons_inj x).2 hxs, hone.append hpasses', hmatch', ?_⟩
      rwa [matchesAt_of_no_match hone hhere]

/-- What no match begins in is written as it is. -/
theorem replaceFrom_of_none {replace : Match → List Char} {rest : List Char}
    (written : List Char) (hrest : c.rest = rest)
    (hnone : ∀ xs e, c.Passes xs e → e.rest ≠ [] → p.matchAt? e = none) :
    p.replaceFrom replace written 0 c.before rest c.position = rest.reverse ++ written := by
  induction rest generalizing written c with
  | nil => rfl
  | cons x rest ih =>
    have hone : c.Passes [x] ⟨some x, rest, c.position + 1⟩ := ⟨hrest, rfl, rfl⟩
    have hhere : p.matchAt? ⟨c.before, x :: rest, c.position⟩ = none := by
      have hc : c = ⟨c.before, x :: rest, c.position⟩ := by rw [← hrest]
      exact hc ▸ hnone [] c (.refl c) (by simp [hrest])
    have hbehind := ih (x :: written) rfl fun xs e (hpasses : Cursor.Passes _ xs e) =>
      hnone _ e (hone.append hpasses)
    rw [replaceFrom, hhere, List.reverse_cons, List.append_assoc]
    exact hbehind

/-- A pattern that matches nowhere leaves the text as it is. -/
theorem replaceIn_eq_self {replace : Match → List Char} {cs : List Char}
    (hnone : ∀ xs e, (Cursor.start cs).Passes xs e → e.rest ≠ [] → p.matchAt? e = none) :
    p.replaceIn replace cs = cs := by
  have hall : p.replaceFrom replace [] 0 none cs 0 = cs.reverse ++ [] :=
    replaceFrom_of_none (c := .start cs) [] rfl hnone
  rw [replaceIn, hall, List.append_nil, List.reverse_reverse]

end Pattern

end Text
end Strata
