/-
# Reports about missing modules, read back

Specification, section 4.5, item 3: module-not-found signals in raw output.

A report is diagnostics on lines of their own. The messages are looked for one after the
other; at each place the first sighting is kept (`mem_firstAtEachPlace`), which is the one
with the file, and then the sightings are sorted by their places.

So every module is told with its file, in the order of the report, as long as no name
misleads a message. Otherwise something is told that is in no diagnostic, and a diagnostic
may be lost (`lost_diagnostic`):

| the report | what is told |
| --- | --- |
| `a.ts(1,1): error TS2307: Cannot find module 'Error: Cannot find module '` | that name, `a.ts` |
| `Error: Cannot find module 'x'`, `Require stack:`, `- b.js` | the text between the names |

The reports that are read back are therefore those that mislead no message
(`missingModules_report_iff`).
-/

import Strata.Proofs.Failure.Sightings
import Strata.Proofs.Sorting

namespace Strata
namespace Signals

open Text Pattern

/-! ### Reports -/

/-- What is told about missing modules: diagnostics, one after the other. -/
def report (ds : List Diagnostic) : String := "\n".intercalate (ds.map Diagnostic.text)

/-- A diagnostic of a report misleads a message. -/
def Misleading (ds : List Diagnostic) (m : Message) : Prop :=
  ∃ front d behind, ds = front ++ d :: behind ∧ d.Misleads behind.head? m

/-- A message is misled by the first diagnostic, in view of the one behind it, or by a later one. -/
theorem misleading_cons_iff {d : Diagnostic} {ds : List Diagnostic} {m : Message} :
    Misleading (d :: ds) m ↔ d.Misleads ds.head? m ∨ Misleading ds m := by
  constructor
  · rintro ⟨front, d', behind, heq, hmisleads⟩
    cases front with
    | nil =>
      obtain ⟨rfl, rfl⟩ := List.cons.inj heq
      exact .inl hmisleads
    | cons d₀ front => exact .inr ⟨front, d', behind, (List.cons.inj heq).2, hmisleads⟩
  · rintro (hmisleads | ⟨front, d', behind, rfl, hmisleads⟩)
    · exact ⟨[], d, ds, rfl, hmisleads⟩
    · exact ⟨d :: front, d', behind, rfl, hmisleads⟩

/-- What a message sees of diagnostics of which the first begins at this position. -/
def seenIn (m : Message) : Nat → List Diagnostic → List Sighting
  | _, [] => []
  | n, d :: ds => d.seenBy n m ++ seenIn m (n + d.text.toList.length + 1) ds

/-- What diagnostics tell of which the first begins at this position. -/
def toldIn : Nat → List Diagnostic → List Sighting
  | _, [] => []
  | n, d :: ds =>
    ⟨n + d.lead.toList.length + 1, d.missing⟩ :: toldIn (n + d.text.toList.length + 1) ds

variable {ds : List Diagnostic} {m : Message} {c : Cursor}

/-- Diagnostics stand on lines of their own. -/
theorem toList_report_cons (d n : Diagnostic) (ds : List Diagnostic) :
    (report (d :: n :: ds)).toList = d.text.toList ++ '\n' :: (report (n :: ds)).toList := by
  simp [report, String.intercalate_cons_cons]

/-- The first diagnostic of a report, and what follows it. -/
theorem exists_first {d : Diagnostic} (hds : ∀ n ∈ ds, n.Proper)
    (hrest : c.rest = (report (d :: ds)).toList) :
    ∃ e, c.Passes d.text.toList e ∧ Diagnostic.Followed ds.head? e.rest ∧
      (ds = [] ∧ e.rest = [] ∨ ∃ e', e.Passes ['\n'] e' ∧ e'.rest = (report ds).toList ∧
        e'.position = c.position + d.text.toList.length + 1) := by
  cases ds with
  | nil =>
    have hrest : c.rest = d.text.toList ++ [] := by
      rw [hrest, List.append_nil]
      simp [report]
    obtain ⟨e, hpasses, hend⟩ := Cursor.exists_passes hrest
    exact ⟨e, hpasses, hend, .inl ⟨rfl, hend⟩⟩
  | cons n ds =>
    rw [toList_report_cons] at hrest
    obtain ⟨e, hpasses, hend⟩ := Cursor.exists_passes hrest
    obtain ⟨e', hfeed, hnext⟩ := Cursor.exists_passes (hend.trans List.singleton_append.symm)
    refine ⟨e, hpasses, ⟨hds n List.mem_cons_self, ?_⟩, .inr ⟨e', hfeed, hnext, ?_⟩⟩
    · rw [hend]
      cases ds with
      | nil => exact ⟨[], by simp [report]⟩
      | cons n' ds => exact ⟨_, by rw [toList_report_cons]⟩
    · rw [hfeed.position, hpasses.position]
      rfl

/-- **What a message sees of a report** that does not mislead it. -/
theorem sightingsAt_report (hds : ∀ d ∈ ds, d.Proper) (hstart : Place.lineStart.holds c = true)
    (hrest : c.rest = (report ds).toList) (hmisleads : ¬ Misleading ds m) :
    m.sightingsAt c = seenIn m c.position ds := by
  induction ds generalizing c with
  | nil =>
    rw [Message.sightingsAt, Message.matchesAt_end m (by rw [hrest]; rfl)]
    rfl
  | cons d ds ih =>
    obtain ⟨hd, hds⟩ := List.forall_mem_cons.1 hds
    rw [misleading_cons_iff, not_or] at hmisleads
    obtain ⟨e, hpasses, hnext, hbehind⟩ := exists_first hds hrest
    rw [Diagnostic.sightingsAt_text hd hstart hpasses hnext hmisleads.1, seenIn]
    congr 1
    obtain ⟨rfl, hend⟩ | ⟨e', hfeed, hrest', hposition⟩ := hbehind
    · rw [Message.sightingsAt, Message.matchesAt_end m hend]
      rfl
    · obtain ⟨hfeed, hstart'⟩ := Diagnostic.sightingsAt_feed m hd hpasses hfeed
      rw [hfeed, ih hds hstart' hrest' hmisleads.2, hposition]

/-! ### One sighting for each place -/

/-- One step of keeping the first sighting at each place. -/
def keepFirst (kept : List Sighting) (s : Sighting) : List Sighting :=
  if kept.any fun k => k.position == s.position then kept else s :: kept

/-- What is kept was kept before, or is the first sighting at a new place. -/
theorem mem_foldl_keepFirst {s : Sighting} (l kept : List Sighting) :
    s ∈ l.foldl keepFirst kept ↔
      s ∈ kept ∨ (∀ k ∈ kept, k.position ≠ s.position) ∧
        l.find? (fun k => k.position == s.position) = some s := by
  induction l generalizing kept with
  | nil => simp
  | cons t l ih =>
    rw [List.foldl_cons, ih, keepFirst, List.find?_cons]
    -- a sighting at the same place is kept unless one was before, and is the first of the list
    -- there
    by_cases hts : t.position = s.position
    · rw [beq_iff_eq.2 hts]
      split
      · rename_i hany
        obtain ⟨k, hk, hkt⟩ := List.any_eq_true.1 hany
        have hseen : ¬ ∀ k ∈ kept, k.position ≠ s.position := fun h =>
          h k hk ((beq_iff_eq.1 hkt).trans hts)
        simp [hseen]
      · rename_i hnone
        have hnew : ∀ k ∈ kept, k.position ≠ s.position := fun k hk heq =>
          hnone (List.any_eq_true.2 ⟨k, hk, beq_iff_eq.2 (heq.trans hts.symm)⟩)
        constructor
        · rintro (hs | ⟨hnone', -⟩)
          · rcases List.mem_cons.1 hs with rfl | hs
            · exact .inr ⟨hnew, rfl⟩
            · exact .inl hs
          · exact absurd hts (hnone' t List.mem_cons_self)
        · rintro (hs | ⟨-, heq⟩)
          · exact .inl (List.mem_cons_of_mem t hs)
          · obtain rfl := Option.some.inj heq
            exact .inl List.mem_cons_self
    · have hne : s ≠ t := fun heq => hts (heq ▸ rfl)
      rw [beq_eq_false_iff_ne.2 hts]
      split
      · rfl
      · simp [hne, hts]

/-- No two sightings are kept at one place. -/
theorem pairwise_foldl_keepFirst {l kept : List Sighting}
    (h : kept.Pairwise (·.position ≠ ·.position)) :
    (l.foldl keepFirst kept).Pairwise (·.position ≠ ·.position) := by
  induction l generalizing kept with
  | nil => exact h
  | cons t l ih =>
    refine ih ?_
    unfold keepFirst
    split
    · exact h
    · rename_i hnone
      refine List.pairwise_cons.2 ⟨fun k hk heq => hnone ?_, h⟩
      exact List.any_eq_true.2 ⟨k, hk, beq_iff_eq.2 heq.symm⟩

/-- **At each place the first sighting is kept.** -/
theorem mem_firstAtEachPlace {s : Sighting} {l : List Sighting} :
    s ∈ firstAtEachPlace l ↔ l.find? (fun k => k.position == s.position) = some s := by
  have hfold : firstAtEachPlace l = (l.foldl keepFirst []).reverse := rfl
  rw [hfold, List.mem_reverse, mem_foldl_keepFirst]
  simp

/-- Sightings at increasing places are told by what is found at each of them. -/
theorem mergeSort_firstAtEachPlace {all told : List Sighting}
    (htold : told.Pairwise (·.position < ·.position))
    (hfind : ∀ n, all.find? (fun k => k.position == n) = told.find? fun k => k.position == n) :
    (firstAtEachPlace all).mergeSort (fun a b => a.position ≤ b.position) = told := by
  have hperm := List.mergeSort_perm (firstAtEachPlace all) fun a b => a.position ≤ b.position
  have hdistinct : (firstAtEachPlace all).Pairwise (·.position ≠ ·.position) :=
    List.pairwise_reverse.2 ((pairwise_foldl_keepFirst .nil).imp Ne.symm)
  have hordered : ((firstAtEachPlace all).mergeSort fun a b => a.position ≤ b.position).Pairwise
      fun a b => decide (a.position ≤ b.position) = true :=
    List.pairwise_mergeSort (fun a b c => by simpa using Nat.le_trans)
      (fun a b => by simpa using Nat.le_total _ _) _
  have hincreasing := hordered.and
    ((hperm.pairwise_iff fun h => Ne.symm h).2 hdistinct)
  -- both lists increase, so it is enough that they hold the same sightings
  refine eq_of_increasing (r := fun a b => a.position < b.position)
    (fun a b hab => Nat.lt_asymm hab) (hincreasing.imp fun h => ?_) htold fun s => ?_
  · exact Nat.lt_of_le_of_ne (by simpa using h.1) h.2
  · rw [List.mem_mergeSort, mem_firstAtEachPlace, hfind]
    constructor
    · exact List.mem_of_find?_eq_some
    · intro hs
      obtain ⟨front, behind, rfl⟩ := List.append_of_mem hs
      refine List.find?_eq_some_iff_append.2
        ⟨beq_self_eq_true _, front, behind, rfl, fun k hk => ?_⟩
      have hlt := (List.pairwise_append.1 htold).2.2 k hk s List.mem_cons_self
      simpa using Nat.ne_of_lt hlt

/-! ### Reports, read back -/

/-- Every message that sees a diagnostic sees it at the opening quote of its name. -/
theorem seenBy_position {d : Diagnostic} {n : Nat} {s : Sighting} (h : s ∈ d.seenBy n m) :
    s.position = n + d.lead.toList.length + 1 := by
  unfold Diagnostic.seenBy at h
  split at h
  · obtain rfl := List.mem_singleton.1 h
    rfl
  · cases h

/-- What stands in front of the name is shorter than the diagnostic. -/
theorem length_lead_lt (d : Diagnostic) : d.lead.toList.length < d.text.toList.length := by
  rw [d.toList_text, List.length_append, List.length_cons]
  omega

/-- What is seen stands behind the position where the diagnostics begin. -/
theorem lt_position_of_mem_seenIn {n : Nat} {s : Sighting} (h : s ∈ seenIn m n ds) :
    n < s.position := by
  induction ds generalizing n with
  | nil => cases h
  | cons d ds ih =>
    rcases List.mem_append.1 h with h | h
    · rw [seenBy_position h]
      omega
    · have hlt := ih h
      omega

/-- Diagnostics are told in the order of their positions, all behind the first one. -/
theorem pairwise_toldIn (n : Nat) (ds : List Diagnostic) :
    (toldIn n ds).Pairwise (·.position < ·.position) ∧ ∀ s ∈ toldIn n ds, n < s.position := by
  induction ds generalizing n with
  | nil => simp [toldIn]
  | cons d ds ih =>
    obtain ⟨hpairwise, hbehind⟩ := ih (n + d.text.toList.length + 1)
    have hlead := length_lead_lt d
    refine ⟨List.pairwise_cons.2 ⟨fun s hs => ?_, hpairwise⟩,
      List.forall_mem_cons.2 ⟨?_, fun s hs => ?_⟩⟩
    · have hlt := hbehind s hs
      dsimp only
      omega
    · dsimp only
      omega
    · have hlt := hbehind s hs
      omega

/-- The first sighting at the place of a diagnostic is what it tells. -/
theorem findSome?_seenBy (d : Diagnostic) (n : Nat) :
    Message.all.findSome? (fun m => (d.seenBy n m).head?) =
      some ⟨n + d.lead.toList.length + 1, d.missing⟩ := by
  obtain ⟨teller, file, specifier⟩ := d
  cases teller <;> rfl

/-- **At each place the messages together find first what is told there.** -/
theorem find?_seenIn (n p : Nat) (ds : List Diagnostic) :
    (Message.all.flatMap fun m => seenIn m n ds).find? (fun k => k.position == p) =
      (toldIn n ds).find? fun k => k.position == p := by
  induction ds generalizing n with
  | nil => rfl
  | cons d ds ih =>
    -- the first name is seen at one place only, and the others are seen behind it
    simp only [List.find?_flatMap, seenIn, List.find?_append] at ih ⊢
    rw [toldIn, List.find?_cons]
    by_cases hp : n + d.lead.toList.length + 1 = p
    · have hbehind : ∀ m, (seenIn m (n + d.text.toList.length + 1) ds).find?
          (fun k => k.position == p) = none := by
        refine fun m => List.find?_eq_none.2 fun s hs heq => ?_
        have hlt := lt_position_of_mem_seenIn hs
        have hlead := length_lead_lt d
        have heq : s.position = p := beq_iff_eq.1 heq
        omega
      have hhere : ∀ m, (d.seenBy n m).find? (fun k => k.position == p) =
          (d.seenBy n m).head? := fun m => by
        unfold Diagnostic.seenBy
        split
        · rw [List.find?_cons, beq_iff_eq.2 hp]
          rfl
        · rfl
      simp only [hbehind, hhere, Option.or_none]
      rw [findSome?_seenBy, beq_iff_eq.2 hp]
    · have hhere : ∀ m, (d.seenBy n m).find? (fun k => k.position == p) = none :=
        fun m => List.find?_eq_none.2 fun s hs heq =>
          hp ((seenBy_position hs).symm.trans (beq_iff_eq.1 heq))
      simp only [hhere, Option.none_or]
      rw [ih, beq_eq_false_iff_ne.2 hp]

/-- What diagnostics tell, positions aside, are their missing modules. -/
theorem map_missing_toldIn (n : Nat) (ds : List Diagnostic) :
    (toldIn n ds).map Sighting.missing = ds.map Diagnostic.missing := by
  induction ds generalizing n with
  | nil => rfl
  | cons d ds ih => rw [toldIn, List.map_cons, ih, List.map_cons]

/-- **A report that misleads no message is read back.** -/
theorem missingModules_of_not_misleading (hds : ∀ d ∈ ds, d.Proper)
    (h : ∀ m, ¬ Misleading ds m) :
    missingModules (report ds) = ds.map Diagnostic.missing := by
  have hall : (missingModuleMessages.flatMap fun m => sightingsOf m (report ds).toList) =
      Message.all.flatMap fun m => seenIn m 0 ds := by
    rw [Message.missingModuleMessages_eq, List.flatMap_map]
    exact List.flatMap_congr fun m _ => (m.sightingsAt_start _).symm.trans
      (sightingsAt_report hds rfl rfl (h m))
  rw [missingModules, hall, mergeSort_firstAtEachPlace (pairwise_toldIn 0 ds).1
    fun p => find?_seenIn 0 p ds, map_missing_toldIn]

/-! ### Names that no diagnostic tells -/

/-- A closing quote in front of a name that no diagnostic tells: one that reaches over the end
of a line, or the one in front of the bundler's file. -/
def FalsePlace (cs : List Char) (n : Nat) : Prop :=
  ∃ front name behind, cs = front ++ '\'' :: (name ++ '\'' :: behind) ∧ n = front.length + 1 ∧
    Unquoted name ∧ ('\n' ∈ name ∨ "Error: Cannot find module ".toList <:+ front ∧
      ∃ x rest, behind = x :: rest ∧ isBlank x = false)

/-- A text in front of such a place moves it by its length. -/
theorem FalsePlace.append {cs : List Char} {n : Nat} (h : FalsePlace cs n) (xs : List Char) :
    FalsePlace (xs ++ cs) (xs.length + n) := by
  obtain ⟨front, name, behind, rfl, rfl, hname, hfalse⟩ := h
  refine ⟨xs ++ front, name, behind, (List.append_assoc ..).symm, ?_, hname, ?_⟩
  · rw [List.length_append, Nat.add_assoc]
  · exact hfalse.imp_right fun h => ⟨h.1.trans (List.suffix_append ..), h.2⟩

/-- **What is seen at such a place** is told by no diagnostic. -/
theorem not_told_of_falsePlace {s : Sighting} {cs : List Char}
    (h : s ∈ sightingsOf m.pattern cs) (hplace : FalsePlace cs s.position) :
    s.missing.file = none ∨ '\n' ∈ s.missing.specifier.toList := by
  obtain ⟨front, name, behind, hcs, hposition, hname, hfalse⟩ := hplace
  obtain ⟨front', name', behind', hcs', hposition', hname', hspecifier, ⟨lead, hlead, hopens⟩,
    hcloses⟩ := Message.exists_of_mem_sightingsOf h
  -- the sighting is at the same quote, so it has this name
  obtain ⟨rfl, heq⟩ := List.append_inj (hcs.symm.trans hcs') (by omega)
  obtain ⟨rfl, rfl⟩ := quote_inj hname hname' (List.cons.inj heq).2
  obtain hfeed | ⟨hwords, x, rest, rfl, hx⟩ := hfalse
  · exact .inr (by rwa [hspecifier, String.toList_ofList])
  · refine .inl ?_
    -- with these words in front and no blank behind it, only the plain loader reads the name
    cases m with
    | typeChecker =>
      exact absurd (List.suffix_or_suffix_of_suffix hwords (hopens.trans hlead)) (by decide)
    | bundler =>
      obtain rfl : lead = _ := hopens
      exact absurd (List.suffix_or_suffix_of_suffix hwords hlead) (by decide)
    | moduleLoader =>
      obtain ⟨y, more, heq, -⟩ := hcloses
      obtain rfl : x = ' ' := (List.cons.inj heq).1
      exact absurd hx (by decide)
    | plainLoader =>
      refine Option.not_isSome_iff_eq_none.1 fun htold => ?_
      obtain ⟨y, more, heq, hy⟩ := hcloses htold
      obtain rfl : x = y := (List.cons.inj heq).1
      exact absurd hx (by simp [hy])

/-- Only loaders are misled, and by diagnostics that they do not read. -/
theorem not_isReadBy_of_misleads {d : Diagnostic} {next : Option Diagnostic}
    (h : d.Misleads next m) : m ≠ .typeChecker ∧ d.teller.isReadBy m = false := by
  cases m with
  | typeChecker | bundler => exact h.elim
  | plainLoader => exact ⟨by decide, h.2.1⟩
  | moduleLoader =>
    refine ⟨by decide, ?_⟩
    have hends := h.2.1
    cases ht : d.teller with
    | typeChecker line column | plainLoaderWithStack => rfl
    | bundler => rfl
    | moduleLoader | plainLoader => exact Bool.noConfusion ((ht ▸ hends : _ = true))

/-- What follows the closing quote of a misleading diagnostic is told by no diagnostic. -/
theorem falsePlace_of_misleads {d : Diagnostic} {next : Option Diagnostic} {rest : List Char}
    (hd : d.Proper) (hnext : Diagnostic.Followed next rest) (hmisleads : d.Misleads next m) :
    FalsePlace (d.text.toList ++ rest)
      ((d.lead.toList ++ '\'' :: d.specifier.toList).length + 1) := by
  have htext : d.text.toList ++ rest =
      (d.lead.toList ++ '\'' :: d.specifier.toList) ++ '\'' :: (d.tail.toList ++ rest) := by
    simp [d.toList_text]
  -- the bundler goes on with a second name on its line; behind the others the next quote is on a
  -- later line
  by_cases hteller : d.teller = .bundler
  · obtain ⟨y, ys, hfile⟩ := List.exists_cons_of_ne_nil (mt String.toList_eq_nil_iff.1 hd.file_ne)
    refine ⟨_, " in ".toList, d.file.toList ++ '\'' :: rest, ?_, rfl, by decide, .inr ⟨?_, y,
      ys ++ '\'' :: rest, ?_, hd.isBlank_file y (hfile ▸ List.mem_cons_self)⟩⟩
    · rw [htext, Diagnostic.tail_bundler hteller]
    · cases m with
      | typeChecker | bundler => exact hmisleads.elim
      | moduleLoader => exact absurd hmisleads.2.1 (by rw [hteller]; decide)
      | plainLoader =>
        exact hmisleads.1.trans ((List.suffix_cons ..).trans (List.suffix_append ..))
    · rw [hfile]
      rfl
  · cases next with
    | none =>
      cases m with
      | typeChecker | bundler => exact hmisleads.elim
      | moduleLoader =>
        obtain ⟨-, -, n, hn, -⟩ := hmisleads
        cases hn
      | plainLoader => exact absurd (hmisleads.2.2 rfl) hteller
    | some n =>
      obtain ⟨name, behind, heq, hname, hfeed, -⟩ := hnext.exists_quote hd hteller
      exact ⟨_, name, behind, by rw [htext, heq], rfl, hname, .inl hfeed⟩

/-- A misleading diagnostic is seen at such a place. -/
theorem exists_falsePlace_of_misleads {d : Diagnostic} {next : Option Diagnostic} {e : Cursor}
    (hd : d.Proper) (h : c.Passes d.text.toList e) (hnext : Diagnostic.Followed next e.rest)
    (hmisleads : d.Misleads next m) :
    ∃ s ∈ m.sightingsAt c, ∃ n, s.position = c.position + n ∧ FalsePlace c.rest n := by
  obtain ⟨hm, hforeign⟩ := not_isReadBy_of_misleads hmisleads
  obtain ⟨e₁, hlead, hname, hfront⟩ := Diagnostic.exists_name hm hd hforeign h hnext
  obtain ⟨s, hs, hposition⟩ :=
    Diagnostic.exists_sighting_of_misleads hm hd hforeign hname hnext hmisleads
  refine ⟨s, hfront ▸ hs, _, ?_, h.rest ▸ falsePlace_of_misleads hd hnext hmisleads⟩
  rw [hposition, hlead.position]
  simp only [List.length_append, List.length_cons, List.length_nil]
  omega

/-- **A report that misleads a message** is seen at such a place. -/
theorem exists_falsePlace (hds : ∀ d ∈ ds, d.Proper) (hstart : Place.lineStart.holds c = true)
    (hrest : c.rest = (report ds).toList) (hmisleading : Misleading ds m) :
    ∃ s ∈ m.sightingsAt c, ∃ n, s.position = c.position + n ∧ FalsePlace c.rest n := by
  induction ds generalizing c with
  | nil =>
    obtain ⟨front, d, behind, heq, -⟩ := hmisleading
    simp at heq
  | cons d ds ih =>
    obtain ⟨hd, hds⟩ := List.forall_mem_cons.1 hds
    obtain ⟨e, hpasses, hnext, hbehind⟩ := exists_first hds hrest
    -- up to the first misleading diagnostic all is seen as it is told
    by_cases hmisleads : d.Misleads ds.head? m
    · exact exists_falsePlace_of_misleads hd hpasses hnext hmisleads
    · have hmore := (misleading_cons_iff.1 hmisleading).resolve_left hmisleads
      obtain ⟨rfl, -⟩ | ⟨e', hfeed, hrest', hposition⟩ := hbehind
      · obtain ⟨front, d, behind, heq, -⟩ := hmore
        simp at heq
      · obtain ⟨hline, hstart'⟩ := Diagnostic.sightingsAt_feed m hd hpasses hfeed
        obtain ⟨s, hs, n, hn, hplace⟩ := ih hds hstart' hrest' hmore
        refine ⟨s, ?_, (d.text.toList ++ ['\n']).length + n, ?_, ?_⟩
        · rw [Diagnostic.sightingsAt_text hd hstart hpasses hnext hmisleads, hline]
          exact List.mem_append_right _ hs
        · rw [hn, hposition, List.length_append, List.length_singleton]
          omega
        · rw [(hpasses.append hfeed).rest]
          exact hplace.append _

/-- **At each place that a message sees something is told**, perhaps what another message sees
there. -/
theorem exists_told {text : String} {s : Sighting} (hs : s ∈ sightingsOf m.pattern text.toList) :
    ∃ first, ∃ m' : Message, first ∈ sightingsOf m'.pattern text.toList ∧
      first.position = s.position ∧ first.missing ∈ missingModules text := by
  set sightings := missingModuleMessages.flatMap fun m => sightingsOf m text.toList
    with hsightings
  rw [Message.missingModuleMessages_eq] at hsightings
  have hseen : s ∈ sightings := by
    rw [hsightings]
    exact List.mem_flatMap.2 ⟨m.pattern, List.mem_map_of_mem m.mem_all, hs⟩
  obtain ⟨first, hfirst⟩ :
      ∃ first, sightings.find? (fun k => k.position == s.position) = some first :=
    Option.isSome_iff_exists.1 (List.find?_isSome.2 ⟨s, hseen, beq_self_eq_true _⟩)
  have hsame : first.position = s.position := by simpa using List.find?_some hfirst
  have hkept : first ∈ firstAtEachPlace sightings := mem_firstAtEachPlace.2 (hsame ▸ hfirst)
  have hmem := List.mem_of_find?_eq_some hfirst
  rw [hsightings] at hmem
  obtain ⟨p, hp, hfirst⟩ := List.mem_flatMap.1 hmem
  obtain ⟨m', -, rfl⟩ := List.mem_map.1 hp
  exact ⟨first, m', hfirst, hsame, List.mem_map_of_mem (List.mem_mergeSort.2 hkept)⟩

/-- **A report is read back exactly when it misleads no message.** Then every missing module is
told with its file, in the order of the diagnostics. In any other report a message sees a name
that no diagnostic tells. Source: specification, section 4.5, item 3. -/
theorem missingModules_report_iff (hds : ∀ d ∈ ds, d.Proper) :
    missingModules (report ds) = ds.map Diagnostic.missing ↔ ∀ m, ¬ Misleading ds m := by
  refine ⟨fun hread m hmisleading => ?_, missingModules_of_not_misleading hds⟩
  obtain ⟨s, hs, n, hposition, hplace⟩ :=
    exists_falsePlace (c := .start (report ds).toList) hds rfl rfl hmisleading
  obtain rfl : s.position = n := hposition.trans (Nat.zero_add n)
  obtain ⟨first, m', hfirst, hsame, htold⟩ := exists_told hs
  obtain ⟨d, hd, heq⟩ := List.mem_map.1 (hread ▸ htold)
  rcases not_told_of_falsePlace hfirst (hsame ▸ hplace) with hnone | hfeed
  · rw [← heq] at hnone
    cases hnone
  · rw [← heq] at hfeed
    exact (hds d hd).specifier_line hfeed

/-- Names that do not end with the words of a loader mislead no message. -/
theorem not_misleading_of_openings
    (h : ∀ d ∈ ds, ∀ w ∈ Diagnostic.openings, ¬ w <:+ d.specifier.toList) (m : Message) :
    ¬ Misleading ds m := by
  rintro ⟨front, d, behind, rfl, hmisleads⟩
  have hd := h d (by simp)
  cases m with
  | typeChecker | bundler => exact hmisleads
  | moduleLoader =>
    rcases hmisleads.1 with hw | hw
    · exact hd _ (.head _) hw
    · exact hd _ (.tail _ (.head _)) hw
  | plainLoader => exact hd _ (.tail _ (.tail _ (.head _))) hmisleads.1

/-- One diagnostic of each kind. -/
def oneOfEach : List Diagnostic :=
  [⟨.plainLoader, "src/a.js", " in "⟩, ⟨.typeChecker "3" "24", "src/b.ts", "./users.repo"⟩,
   ⟨.plainLoaderWithStack, "-", " imported from x"⟩, ⟨.bundler, "src/lib", "t resolve "⟩,
   ⟨.moduleLoader, "src/d.js", "Error: Cannot find module"⟩]

/-- A report of all kinds is read back, though its names hold words of the messages. -/
theorem missingModules_report_oneOfEach :
    missingModules (report oneOfEach) =
      [⟨some "src/a.js", " in "⟩, ⟨some "src/b.ts", "./users.repo"⟩,
       ⟨some "-", " imported from x"⟩, ⟨some "src/lib", "t resolve "⟩,
       ⟨some "src/d.js", "Error: Cannot find module"⟩] := by
  have hproper : ∀ d ∈ oneOfEach, d.Proper := by decide
  exact (missingModules_report_iff hproper).2 (not_misleading_of_openings (by decide))

/-- A name that ends with the words of the plain loader, and a diagnostic behind it. -/
def lostName : List Diagnostic :=
  [⟨.typeChecker "1" "1", "a.ts", "Error: Cannot find module "⟩,
   ⟨.plainLoaderWithStack, "b.js", "x"⟩]

/-- **A diagnostic is lost behind a name that ends with the words of a message.** -/
theorem lost_diagnostic :
    (∀ d ∈ lostName, d.Proper) ∧
      missingModules (report lostName) =
        [⟨some "a.ts", "Error: Cannot find module "⟩, ⟨none, "\nError: Cannot find module "⟩] ∧
      missingModules (report lostName) ≠ lostName.map Diagnostic.missing := by
  have hfirst : firstAtEachPlace
      (missingModuleMessages.flatMap fun m => sightingsOf m (report lostName).toList) =
        [⟨45, some "a.ts", "Error: Cannot find module "⟩,
         ⟨72, none, "\nError: Cannot find module "⟩] := by
    decide +kernel
  have hread : missingModules (report lostName) =
      [⟨some "a.ts", "Error: Cannot find module "⟩, ⟨none, "\nError: Cannot find module "⟩] := by
    rw [missingModules, hfirst, List.mergeSort_of_pairwise (by decide)]
    rfl
  exact ⟨by decide, hread, hread ▸ by decide⟩

end Signals
end Strata
