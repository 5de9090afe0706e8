import Mathlib.Data.List.Sort
import Mathlib.Data.String.Basic
import PostfixSpec.Proofs.CommandLine.Conclusion
import PostfixSpec.Proofs.CommandLine.Groups

/-!
# The order of groups

Groups with plain values are legible wherever they stand, so a row of them with one source asks for the
same in any order, except that its names come in another order. A run never sees that order: an
assignment only asks whether a name is among those that hold, and the record that lists the names sorts
them. So a run does not depend on the order of groups, down to the last record.
-/

namespace PostfixSpec

/-! ### Names in any order -/

theorem Evaluator.assignment_perm {names others : List String} (h : names.Perm others) :
    assignment names = assignment others := by
  have hcontains : ∀ x, names.contains x = others.contains x := by
    intro x
    rw [List.contains_eq_mem, List.contains_eq_mem, decide_eq_decide]
    exact h.mem_iff
  rw [assignment, assignment]
  congr 1
  funext value
  cases value with
  | text x => exact hcontains x
  | _ => rfl

namespace Report

/-- The order in which names are listed. -/
def inOrder (a b : String) : Bool := !decide (b < a)

theorem inOrder_iff {a b : String} : inOrder a b = true ↔ a ≤ b := by
  rw [inOrder, Bool.not_eq_true', decide_eq_false_iff_not, not_lt]

theorem mergeSort_perm_eq {names others : List String} (h : names.Perm others) :
    names.mergeSort inOrder = others.mergeSort inOrder := by
  have htrans : ∀ a b c, inOrder a b = true → inOrder b c = true → inOrder a c = true := by
    intro a b c
    rw [inOrder_iff, inOrder_iff, inOrder_iff]
    exact le_trans
  have htotal : ∀ a b, (inOrder a b || inOrder b a) = true := by
    intro a b
    rw [Bool.or_eq_true, inOrder_iff, inOrder_iff]
    exact le_total a b
  have hperm := ((List.mergeSort_perm names inOrder).trans h).trans
    (List.mergeSort_perm others inOrder).symm
  refine List.Perm.eq_of_pairwise ?_ (List.pairwise_mergeSort htrans htotal names)
    (List.pairwise_mergeSort htrans htotal others) hperm
  intro a b _ _
  rw [inOrder_iff, inOrder_iff]
  exact le_antisymm

theorem nameList_perm {names others : List String} (h : names.Perm others) :
    nameList names = nameList others := by
  have hempty : names.isEmpty = others.isEmpty := by
    rw [Bool.eq_iff_iff, List.isEmpty_iff_length_eq_zero, List.isEmpty_iff_length_eq_zero,
      h.length_eq]
  rw [nameList, nameList, hempty]
  exact congrArg _ (congrArg _ (mergeSort_perm_eq h))

theorem run_perm (spec : Specification Leaf) {names others : List (Option String)}
    (h : names.Perm others) : run spec names = run spec others := by
  by_cases hnames : none ∈ names
  · have hnone : names.mapM id = none := mapM_eq_none_iff.mpr ⟨none, hnames, rfl⟩
    have hothers : others.mapM id = none := mapM_eq_none_iff.mpr ⟨none, h.mem_iff.mp hnames, rfl⟩
    unfold run
    rw [hnone, hothers]
  · obtain ⟨xs, rfl⟩ := exists_map_some hnames
    obtain ⟨ys, rfl⟩ := exists_map_some (mt h.mem_iff.mpr hnames)
    have hperm : xs.Perm ys := (List.map_perm_map_iff (Option.some_injective String)).mp h
    have hvalues (values : List String) : (values.map some).mapM id = some values :=
      mapM_eq_some_iff.mpr (List.map_id _)
    unfold run
    rw [hvalues, hvalues]
    simp only [Evaluator.assignment_perm hperm, Specification.truth, assignment, nameList_perm hperm]

end Report

namespace CommandLine

theorem execute_perm (reader : File.Reader) (source : Source) {names others : List (Option String)}
    (h : names.Perm others) (verbose debug : Bool) :
    execute reader ⟨source, names, verbose, debug⟩
      = execute reader ⟨source, others, verbose, debug⟩ := by
  have hrun : ∀ spec, Report.run spec names = Report.run spec others :=
    fun spec => Report.run_perm spec h
  unfold execute runFormula
  simp only [hrun]

/-- **The order of groups does not matter.** Take a row of groups whose values do not begin with a minus
sign, exactly one of which names a source. In any other order they lead to the same exit code and write
the same to both outputs, whatever level they ask for. -/
theorem run_groups_perm {gs hs : List Group} (hperm : gs.Perm hs) (hplain : ∀ g ∈ gs, g.Plain)
    (hsource : (gs.filterMap Group.source?).length = 1) (reader : File.Reader) :
    run (gs.flatMap Group.words) reader = run (hs.flatMap Group.words) reader := by
  obtain ⟨source, hsource⟩ := List.length_eq_one_iff.mp hsource
  have hsource' : hs.filterMap Group.source? = [source] := by
    rw [← List.perm_singleton, ← hsource]
    exact (hperm.filterMap _).symm
  have hlegible : ∀ g ∈ gs, g.Legible := fun g hg => (hplain g hg).legible
  have hlegible' : ∀ g ∈ hs, g.Legible := fun g hg => hlegible g (hperm.mem_iff.mpr hg)
  rw [run, run, readArguments_groups hlegible hsource, readArguments_groups hlegible' hsource',
    hperm.any_eq, hperm.any_eq]
  simp only [execute_perm reader source (hperm.filterMap Group.name?)]

/-- The names are given in another order, and so are the switches around the formula. -/
theorem run_groups_perm_reversed :
    readArguments ["-t", "b", "-v", "--formula=a & b", "--true", "c=d"]
        = .ok ⟨.formula (some "a & b"), [some "b", some "c=d"], true, false⟩ ∧
      readArguments ["--true", "c=d", "--formula=a & b", "-v", "-t", "b"]
        = .ok ⟨.formula (some "a & b"), [some "c=d", some "b"], true, false⟩ ∧
      run ["-t", "b", "-v", "--formula=a & b", "--true", "c=d"] (fun _ => .error .missing)
        = run ["--true", "c=d", "--formula=a & b", "-v", "-t", "b"] fun _ => .error .missing := by
  let gs : List Group := [.valued .name rfl .letter "b", .verbose true,
    .valued .formula rfl .joined "a & b", .valued .name rfl .long "c=d"]
  have hplain : ∀ g ∈ gs, g.Plain := by simp [gs, Group.Plain]
  refine ⟨by decide +kernel, by decide +kernel, ?_⟩
  exact run_groups_perm (List.reverse_perm gs).symm hplain rfl _

end CommandLine

end PostfixSpec
