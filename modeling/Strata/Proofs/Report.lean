/-
# The report does not depend on orders

Specification, section 4.4: two runs produce byte-identical reports; section 5: the order
of the validators does not matter.

Neither the order in which directories list their entries nor that in which the
registered validators stand shows in a report: the graph is the same, the
validators report the same violations in another order, and sorting forgets that
order.
-/

import Strata.Proofs.Graph.CycleReport
import Strata.Proofs.Graph.Relisting
import Strata.Proofs.Validator.Regular
import Strata.Proofs.Validator.Relisting
import Strata.Report

namespace Strata

namespace Report

theorem violations_assemble_perm (c : Contract) (graph : ImportGraph) (found : List Violation) :
    (assemble c graph (Violation.sort found)).violations.Perm (graph.violations ++ found) := by
  refine (Violation.sort_perm _).trans ?_
  exact ((Violation.sort_perm found).append_right _).trans List.perm_append_comm

theorem validateWith_eq {validators : List Validator} {files : Files} {root : Path} {c : Contract}
    {graph : ImportGraph} {found : List (List Violation)}
    (hgraph : ImportGraph.build files root c = .ok graph)
    (hfound : (validators.mapM fun v => v.scan files root c) = .ok found) :
    validateWith validators files root c =
      .ok (assemble c graph (Violation.sort found.flatten)) := by
  unfold validateWith Validator.runAll
  rw [hgraph, hfound]
  rfl

theorem validateWith_error {validators : List Validator} {files : Files} {root : Path}
    {c : Contract} {graph : ImportGraph} {e : IoError}
    (hgraph : ImportGraph.build files root c = .ok graph)
    (hfound : (validators.mapM fun v => v.scan files root c) = .error e) :
    validateWith validators files root c = .error e := by
  unfold validateWith Validator.runAll
  rw [hgraph, hfound]
  rfl

end Report

/-- The registered validators report the same violations in every order of theirs
and of the listings, or fail in every order. -/
theorem Validator.mapM_scan {files files' : Files} (h : files.SameTree files')
    {validators validators' : List Validator} (hv : validators.Perm registered)
    (hv' : validators'.Perm registered) (root : Path) (c : Contract) :
    (∃ e e', (validators.mapM fun v => v.scan files root c) = .error e ∧
      (validators'.mapM fun v => v.scan files' root c) = .error e') ∨
    ∃ found found', (validators.mapM fun v => v.scan files root c) = .ok found ∧
      (validators'.mapM fun v => v.scan files' root c) = .ok found' ∧
      found.flatten.Perm found'.flatten := by
  -- first the other listings under the same order of validators, then the other order
  have hlistings : Matches (List.Forall₂ List.Perm)
      (validators.mapM fun v => v.scan files root c)
      (validators.mapM fun v => v.scan files' root c) :=
    .mapM fun v hmem => scan_matches h (hv.mem_iff.1 hmem) root c
  have horder := mapM_perm (hv.trans hv'.symm) fun v => v.scan files' root c
  generalize (validators.mapM fun v => v.scan files root c) = x at hlistings
  generalize (validators.mapM fun v => v.scan files' root c) = y at hlistings horder
  cases hlistings with
  | error e =>
    rcases horder with ⟨e, e', he, he'⟩ | ⟨as, bs, has, -⟩
    · exact .inl ⟨e, e', he, he'⟩
    · cases has
  | @ok found found' hperm =>
    rcases horder with ⟨e, e', he, -⟩ | ⟨as, bs, has, hbs, horder⟩
    · cases he
    · obtain rfl := Except.ok.inj has
      exact .inr ⟨found, bs, rfl, hbs, (flatten_perm hperm).trans horder.flatten⟩

namespace Report

/-- **A validation does not depend on orders.** Whatever the order in which the directories of a
project list their entries and the registered validators stand: either the validation fails in
each, or it gives the same report in each. The violations of the report are those of the graph
and of all validators in another order, and the same list comes out in whatever order these are
merged. Source: specification, sections 4.4 and 5. -/
theorem validateWith_order_independent {files files' : Files} (h : files.SameTree files')
    {validators validators' : List Validator} (hv : validators.Perm Validator.registered)
    (hv' : validators'.Perm Validator.registered) (root : Path) (c : Contract) :
    (∃ e e', validateWith validators files root c = .error e ∧
      validateWith validators' files' root c = .error e') ∨
    ∃ report, validateWith validators files root c = .ok report ∧
      validateWith validators' files' root c = .ok report ∧
      ∃ graph found, ImportGraph.build files root c = .ok graph ∧
        (validators.mapM fun v => v.scan files root c) = .ok found ∧
        report.graph = graph.summary ∧ report.cycles = graph.cycles ∧
        report.violations.Perm (graph.violations ++ found.flatten) ∧
        ∀ merged, merged.Perm (graph.violations ++ found.flatten) →
          Violation.sort merged = report.violations := by
  have hbuild := ImportGraph.build_eq_of_sameTree h root c
  -- the graph is the same for both, and if it cannot be built both fail alike
  cases hgraph : ImportGraph.build files root c with
  | error e =>
    rw [hgraph] at hbuild
    refine .inl ⟨e, e, ?_, ?_⟩
    · rw [validateWith, hgraph]
      rfl
    · rw [validateWith, ← hbuild]
      rfl
  | ok graph =>
    rw [hgraph] at hbuild
    rcases Validator.mapM_scan h hv hv' root c with
      ⟨e, e', he, he'⟩ | ⟨found, found', hfound, hfound', hperm⟩
    · exact .inl ⟨e, e', validateWith_error hgraph he, validateWith_error hbuild.symm he'⟩
    · -- what the rules make is told apart by the order of violations, so sorting forgets the order
      -- of the scans
      have hregular : Violation.AllRegular found.flatten :=
        forall_of_mapM hfound fun v hmem vs hvs =>
          Validator.regular_of_mem_registered (hv.mem_iff.1 hmem) hvs
      have hsort : Violation.sort found.flatten = Violation.sort found'.flatten :=
        Violation.sort_eq_of_perm hperm hregular
      refine .inr ⟨_, validateWith_eq hgraph hfound, ?_, graph, found, rfl, hfound, rfl, rfl,
        violations_assemble_perm c graph found.flatten, fun merged hmerged => ?_⟩
      · rw [validateWith_eq hbuild.symm hfound', hsort]
      · have hall := (ImportGraph.regular_of_build hgraph).append hregular
        refine Violation.sort_eq_of_perm (hmerged.trans ?_) (hall.of_perm hmerged.symm)
        exact List.perm_append_comm.trans ((Violation.sort_perm found.flatten).symm.append_right _)

/-! ### Two files with faults -/

/-- A project whose source root lists two files, in one of two orders. The first
imports a file that is missing, the second evaluates code and logs the result. -/
def twoFiles (swapped : Bool) : Files where
  top :=
    .directory
      [("src", .directory
        (if swapped then
          [("b.ts", .file (some "console.log(eval(text));")),
           ("a.ts", .file (some "import './missing';"))]
        else
          [("a.ts", .file (some "import './missing';")),
           ("b.ts", .file (some "console.log(eval(text));"))]))]
  workingDirectory := ⟨"/"⟩

theorem sameTree_twoFiles : (twoFiles false).SameTree (twoFiles true) := by
  refine ⟨⟨.singleton (by decide) (.directory (by decide) (by decide) ?_), ?_⟩, rfl⟩
  · exact List.forall_mem_cons.2 ⟨.file _, List.forall_mem_singleton.2 (.file _)⟩
  · exact @Entry.Relisted.inside [] [] "src" _ _ (.permute (.swap _ _ _))

/-- In a project without modules the validators scan the layout and the files alone. -/
theorem mapM_scan_of_no_modules {files : Files} {root : Path} {c : Contract}
    {layout couplings security : List Violation}
    (hmodules : moduleDirectories files root c = .ok [])
    (hlayout : Structure.scan files root c = .ok layout)
    (hcouplings : Coupling.scan files root c = .ok couplings)
    (hsecurity : Security.scan files root c = .ok security) :
    (Validator.registered.mapM fun v => v.scan files root c) =
      .ok [layout, couplings, security, []] := by
  have htests : Tests.scan files root c = .ok [] := by
    unfold Tests.scan
    rw [hmodules]
    rfl
  exact mapM_eq_ok.2 (.cons hlayout (.cons hcouplings (.cons hsecurity (.cons htests .nil))))

/-- In a project without modules the validators fail only where the scans of the files
do. -/
theorem exists_scan_of_no_modules {files : Files} {root : Path} {c : Contract}
    (hmodules : moduleDirectories files root c = .ok [])
    (hcoupling : ∃ vs, Coupling.scan files root c = .ok vs)
    (hsecurity : ∃ vs, Security.scan files root c = .ok vs) :
    ∃ found, (Validator.registered.mapM fun v => v.scan files root c) = .ok found := by
  obtain ⟨couplings, hcouplings⟩ := hcoupling
  obtain ⟨security, hsecurity⟩ := hsecurity
  have hstructure : ∃ vs, Structure.scan files root c = .ok vs := by
    unfold Structure.scan
    rw [hmodules]
    split
    · exact ⟨[], rfl⟩
    · exact ⟨_, rfl⟩
  obtain ⟨layout, hlayout⟩ := hstructure
  exact ⟨_, mapM_scan_of_no_modules hmodules hlayout hcouplings hsecurity⟩

/-- The security of a project without an environment file is that of its sources. -/
theorem Security.scan_of_walk {files : Files} {root : Path} {c : Contract}
    {found code : List FoundFile} (hwalk : files.walk (c.sourceDirectory root) = .ok found)
    (hcode : sortByPath (found.filter fun f => isCodeFile f.path) = code)
    (henv : Security.scanEnv files root = .ok []) :
    Security.scan files root c =
      .ok (code.flatMap fun f =>
        f.text.elim [] (Security.scanSource (root.relativeTo f.path))) := by
  subst hcode
  unfold Security.scan
  rw [hwalk, henv]
  refine congrArg Except.ok ((List.append_nil _).trans ?_)
  congr 1
  funext f
  cases f.text <;> rfl

/-- The import that the first file lacks. -/
def missingImport : Violation :=
  ⟨"IMPORT.MISSING_TARGET", .error, "src/a.ts", some "./missing",
    "Import './missing' does not resolve to a file"⟩

/-- The code that the second file evaluates. -/
def evaluatedCode : Violation :=
  ⟨"SEC.DYNAMIC_EVAL", .error, "src/b.ts", none, "Dynamic code evaluation at line 1 (1 finding(s))"⟩

/-- What the second file logs. -/
def loggedText : Violation :=
  ⟨"AST.CONSOLE_LOG", .warning, "src/b.ts", none,
    "console.log used 1 time(s), first at line 1; use the project logger"⟩

/-- The graph finds the one fault, the validators the two others. -/
theorem exists_findings_twoFiles :
    ∃ g, ImportGraph.build (twoFiles false) ⟨"/"⟩ .standard = .ok g ∧
      g.violations = [missingImport] ∧
      (Validator.registered.mapM fun v => v.scan (twoFiles false) ⟨"/"⟩ .standard) =
        .ok [[], [loggedText], [evaluatedCode], []] := by
  let below : List FoundFile :=
    [⟨⟨"/src/a.ts"⟩, some "import './missing';"⟩,
     ⟨⟨"/src/b.ts"⟩, some "console.log(eval(text));"⟩]
  let sources : List SourceFile :=
    below.map fun f => ⟨f.path, Path.relativeTo ⟨"/"⟩ f.path, f.text⟩
  have hsorted : sortByPath below = below := List.mergeSort_of_pairwise (by decide +kernel)
  have hfilter : sortByPath (below.filter fun f => isCodeFile f.path) = sortByPath below := rfl
  have hsources : selectProduction ⟨"/"⟩ below = sources :=
    hsorted ▸ selectProduction_eq (by decide +kernel) (by decide +kernel) (by decide +kernel)
  have hmodules : moduleDirectories (twoFiles false) ⟨"/"⟩ .standard = .ok [] :=
    congrArg Except.ok List.mergeSort_nil
  have hlayout : Structure.scan (twoFiles false) ⟨"/"⟩ .standard = .ok [] := by
    have hscan : Structure.scan (twoFiles false) ⟨"/"⟩ .standard =
        (moduleDirectories (twoFiles false) ⟨"/"⟩ .standard >>= fun modules =>
          return (← modules.mapM (Structure.scanModule (twoFiles false) .standard)).flatten) := rfl
    rw [hscan, hmodules]
    rfl
  have hcouplings : Coupling.scan (twoFiles false) ⟨"/"⟩ .standard = .ok [loggedText] := by
    have hscan : Coupling.scan (twoFiles false) ⟨"/"⟩ .standard =
        .ok ((selectProduction ⟨"/"⟩ below).flatMap (Coupling.scanSource .standard)) := rfl
    rw [hscan, hsources]
    decide +kernel
  have hsecurity : Security.scan (twoFiles false) ⟨"/"⟩ .standard = .ok [evaluatedCode] := by
    rw [Security.scan_of_walk rfl (hfilter.trans hsorted) rfl]
    decide +kernel
  let surroundings := Graph.surroundingsOf .standard ⟨"/"⟩ below below [] sources
  have hrecords : Graph.recordsOf surroundings sources = [⟨0, "./missing", .unresolved⟩] := by
    decide +kernel
  have hassemble : Graph.assemble .standard ⟨"/"⟩ below below [] =
      Graph.ofRecords .standard [] (sources.map (Graph.Node.ofSource .standard)).toArray
        [⟨0, "./missing", .unresolved⟩] := by
    rw [Graph.assemble, hsorted, hsources]
    exact congrArg _ hrecords
  refine ⟨_, rfl, ?_, mapM_scan_of_no_modules hmodules hlayout hcouplings hsecurity⟩
  show (Graph.assemble .standard ⟨"/"⟩ below below []).violations = _
  rw [hassemble]
  have hcycles : Graph.shownCycles (Graph.ofRecords .standard []
      (sources.map (Graph.Node.ofSource .standard)).toArray
        [⟨0, "./missing", .unresolved⟩]) = [] := by
    -- without an edge there is no import, so none that leads back
    refine (ImportGraph.shownCycles_eq_nil_iff fun e he => absurd he List.not_mem_nil).2 ?_
    intro v hv
    obtain ⟨w, ⟨e, he, -⟩, -⟩ := Relation.TransGen.head'_iff.1 hv
    exact absurd he List.not_mem_nil
  refine List.perm_singleton.1 ((Violation.sort_perm _).trans (.of_eq ?_))
  refine (congrArg (_ ++ List.map Graph.Cycle.violation ·) hcycles).trans ?_
  decide +kernel

/-- Two files in either order, and the validators forwards or backwards: the faults that
the graph and two validators find are merged into one list. -/
theorem validateWith_order_independent_twoFiles :
    ∃ report, validateWith Validator.registered (twoFiles false) ⟨"/"⟩ .standard = .ok report ∧
      validateWith Validator.registered.reverse (twoFiles true) ⟨"/"⟩ .standard = .ok report ∧
      report.violations = [loggedText, missingImport, evaluatedCode] := by
  obtain ⟨g, hbuild, hgraph, hscan⟩ := exists_findings_twoFiles
  rcases validateWith_order_independent sameTree_twoFiles (.refl _)
    (List.reverse_perm Validator.registered) ⟨"/"⟩ .standard with
    ⟨e, e', he, -⟩ | ⟨report, hreport, hreport', g', found, hbuild', hscan', -, -, -, hmerged⟩
  · rw [validateWith_eq hbuild hscan] at he
    cases he
  · obtain rfl := Except.ok.inj (hbuild.symm.trans hbuild')
    obtain rfl := Except.ok.inj (hscan.symm.trans hscan')
    refine ⟨report, hreport, hreport', ?_⟩
    have hsorted : Violation.sort [loggedText, missingImport, evaluatedCode] =
        [loggedText, missingImport, evaluatedCode] :=
      List.mergeSort_of_pairwise (by decide +kernel)
    rw [← hmerged [loggedText, missingImport, evaluatedCode] (hgraph ▸ .swap _ _ _), hsorted]

end Report

end Strata
