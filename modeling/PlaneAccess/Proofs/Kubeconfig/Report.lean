import Mathlib.Data.List.Sort
import PlaneAccess.Proofs.Kubeconfig.Dangling

/-!
# The report of references that lead nowhere

A report of a kubeconfig has the references that lead nowhere and no others. The
current context comes first, and the rest is in the order of the contexts, of
each of them the cluster before the user. There is one list like this, and it is
the one that is made (`Kubeconfig.reports_iff`). So it repeats nothing, and it
is empty exactly if all references lead somewhere
(`Kubeconfig.danglingReferences_report`).
-/

namespace PlaneAccess

namespace DanglingReference

/-! ## The order of a report -/

/-- A reference is reported before another one. Of two references that stand in
the same place neither comes first, whatever they refer to. -/
def Precedes : DanglingReference → DanglingReference → Prop
  | currentContext _, cluster _ _ | currentContext _, user _ _ => True
  | cluster a _, cluster b _ | user a _, cluster b _ | user a _, user b _ => a < b
  | cluster a _, user b _ => a < b ∨ a = b
  | _, currentContext _ => False

theorem not_precedes_currentContext {r : DanglingReference} {name : String} :
    ¬ r.Precedes (.currentContext name) := by
  cases r <;> exact id

theorem not_lt_of_lt_or_eq {a b : String} (h : a < b ∨ a = b) : ¬ b < a := by
  rcases h with hlt | rfl
  · exact String.lt_asymm hlt
  · exact String.lt_irrefl a

theorem Precedes.asymm {r s : DanglingReference} (h : r.Precedes s) : ¬ s.Precedes r := by
  cases r with
  | currentContext name => exact not_precedes_currentContext
  | cluster a name =>
    cases s with
    | currentContext name' => exact absurd h not_precedes_currentContext
    | cluster b name' => exact String.lt_asymm h
    | user b name' => exact not_lt_of_lt_or_eq h
  | user a name =>
    cases s with
    | currentContext name' => exact absurd h not_precedes_currentContext
    | cluster b name' =>
      intro h'
      exact not_lt_of_lt_or_eq h' h
    | user b name' => exact String.lt_asymm h

instance : Std.Asymm Precedes := ⟨fun _ _ => Precedes.asymm⟩

theorem pairwise_ite_singleton (p : Prop) [Decidable p] (r : DanglingReference) :
    (if p then [r] else []).Pairwise Precedes := by
  split
  · exact List.pairwise_singleton Precedes r
  · exact List.Pairwise.nil

end DanglingReference

namespace Kubeconfig

open DanglingReference

/-! ## All references -/

/-- A name leads to an entry of a map, unless it is empty. -/
def LeadsSomewhere {α : Type} (m : NameMap α) (name : String) : Prop :=
  name ≠ "" → ∃ v, m.get? name = some v

/-- Each reference of a kubeconfig leads somewhere, unless it is empty. -/
structure Resolved (k : Kubeconfig) : Prop where
  currentContext : LeadsSomewhere k.contexts k.currentContext
  clusters : ∀ context c, k.contexts.get? context = some c → LeadsSomewhere k.clusters c.cluster
  users : ∀ context c, k.contexts.get? context = some c → LeadsSomewhere k.users c.user

theorem not_dangles_iff {α : Type} {m : NameMap α} {name : String} :
    ¬ dangles m name = true ↔ LeadsSomewhere m name := by
  rw [dangles_iff, not_and, LeadsSomewhere]
  simp only [Option.ne_none_iff_exists', ne_eq]

theorem dangles_eq_false_iff {α : Type} {m : NameMap α} {name : String} :
    dangles m name = false ↔ LeadsSomewhere m name := by
  rw [← Bool.not_eq_true, not_dangles_iff]

theorem resolved_iff {k : Kubeconfig} : k.Resolved ↔ ∀ r, ¬ k.Dangles r := by
  constructor
  · intro h r hr
    cases r with
    | currentContext name =>
      obtain ⟨rfl, hdangles⟩ := hr
      exact not_dangles_iff.mpr h.currentContext hdangles
    | cluster context name =>
      obtain ⟨c, hc, rfl, hdangles⟩ := hr
      exact not_dangles_iff.mpr (h.clusters context c hc) hdangles
    | user context name =>
      obtain ⟨c, hc, rfl, hdangles⟩ := hr
      exact not_dangles_iff.mpr (h.users context c hc) hdangles
  · intro h
    refine ⟨not_dangles_iff.mp ?_, ?_, ?_⟩
    · intro hdangles
      exact h (.currentContext _) ⟨rfl, hdangles⟩
    · intro context c hc
      refine not_dangles_iff.mp fun hdangles => ?_
      exact h (.cluster context _) ⟨c, hc, rfl, hdangles⟩
    · intro context c hc
      refine not_dangles_iff.mp fun hdangles => ?_
      exact h (.user context _) ⟨c, hc, rfl, hdangles⟩

theorem danglingReferences_eq_nil_iff {k : Kubeconfig} :
    k.danglingReferences = [] ↔ k.Resolved := by
  rw [List.eq_nil_iff_forall_not_mem, resolved_iff]
  exact forall_congr' fun r => not_congr mem_danglingReferences

/-! ## Reports -/

/-- A list has all references of a kubeconfig that lead nowhere, in order. -/
structure Reports (k : Kubeconfig) (report : List DanglingReference) : Prop where
  currentContext : ∀ name, .currentContext name ∈ report ↔
    k.currentContext = name ∧ name ≠ "" ∧ k.contexts.get? name = none
  cluster : ∀ context name, .cluster context name ∈ report ↔
    ∃ c, k.contexts.get? context = some c ∧ c.cluster = name ∧ name ≠ "" ∧
      k.clusters.get? name = none
  user : ∀ context name, .user context name ∈ report ↔
    ∃ c, k.contexts.get? context = some c ∧ c.user = name ∧ name ≠ "" ∧
      k.users.get? name = none
  ordered : report.Pairwise Precedes

section

variable {k : Kubeconfig} {report report' : List DanglingReference}

theorem dangles_currentContext_iff {name : String} : k.Dangles (.currentContext name) ↔
    k.currentContext = name ∧ name ≠ "" ∧ k.contexts.get? name = none := by
  rw [Dangles, dangles_iff]

theorem dangles_cluster_iff {context name : String} : k.Dangles (.cluster context name) ↔
    ∃ c, k.contexts.get? context = some c ∧ c.cluster = name ∧ name ≠ "" ∧
      k.clusters.get? name = none := by
  simp only [Dangles, dangles_iff]

theorem dangles_user_iff {context name : String} : k.Dangles (.user context name) ↔
    ∃ c, k.contexts.get? context = some c ∧ c.user = name ∧ name ≠ "" ∧
      k.users.get? name = none := by
  simp only [Dangles, dangles_iff]

theorem Reports.mem_iff (h : k.Reports report) {r : DanglingReference} :
    r ∈ report ↔ k.Dangles r := by
  cases r with
  | currentContext name => exact (h.currentContext name).trans dangles_currentContext_iff.symm
  | cluster context name => exact (h.cluster context name).trans dangles_cluster_iff.symm
  | user context name => exact (h.user context name).trans dangles_user_iff.symm

/-- Members and order leave one report only. -/
theorem Reports.unique (h : k.Reports report) (h' : k.Reports report') : report = report' :=
  h.ordered.eq_of_mem_iff h'.ordered fun _ => h.mem_iff.trans h'.mem_iff.symm

theorem Reports.head?_eq_some (h : k.Reports report) {name : String}
    (hname : .currentContext name ∈ report) : report.head? = some (.currentContext name) := by
  cases report with
  | nil => cases hname
  | cons r rest =>
    rcases List.mem_cons.mp hname with rfl | hrest
    · rfl
    · have hbefore := (List.pairwise_cons.mp h.ordered).1 _ hrest
      exact absurd hbefore not_precedes_currentContext

end

/-! ## The report that is made -/

/-- What is reported of one context comes before what is reported of a later
one. -/
theorem precedes_of_mem_danglingIn {k : Kubeconfig} {a b : String} {c d : Context}
    {r s : DanglingReference} (h : a < b) (hr : r ∈ k.danglingIn a c)
    (hs : s ∈ k.danglingIn b d) : r.Precedes s := by
  rcases mem_danglingIn.mp hr with ⟨rfl, -⟩ | ⟨rfl, -⟩
  · rcases mem_danglingIn.mp hs with ⟨rfl, -⟩ | ⟨rfl, -⟩
    · exact h
    · exact Or.inl h
  · rcases mem_danglingIn.mp hs with ⟨rfl, -⟩ | ⟨rfl, -⟩
    · exact h
    · exact h

theorem pairwise_danglingIn (k : Kubeconfig) (name : String) (c : Context) :
    (k.danglingIn name c).Pairwise Precedes := by
  refine List.pairwise_append.mpr ⟨pairwise_ite_singleton _ _, pairwise_ite_singleton _ _, ?_⟩
  intro r hr s hs
  rw [List.mem_ite_nil_right, List.mem_singleton] at hr hs
  obtain ⟨-, rfl⟩ := hr
  obtain ⟨-, rfl⟩ := hs
  exact Or.inr rfl

theorem pairwise_danglingReferences (k : Kubeconfig) :
    k.danglingReferences.Pairwise Precedes := by
  refine List.pairwise_append.mpr ⟨pairwise_ite_singleton _ _, ?_, ?_⟩
  · -- the entries of the map are in the order of their names
    refine List.pairwise_flatMap.mpr ⟨fun e _ => k.pairwise_danglingIn e.1 e.2, ?_⟩
    exact k.contexts.increasing.imp fun hlt _ hr _ hs => precedes_of_mem_danglingIn hlt hr hs
  · intro r hr s hs
    rw [List.mem_ite_nil_right, List.mem_singleton] at hr
    obtain ⟨-, rfl⟩ := hr
    obtain ⟨e, -, hs⟩ := List.mem_flatMap.mp hs
    rcases mem_danglingIn.mp hs with ⟨rfl, -⟩ | ⟨rfl, -⟩
    · exact True.intro
    · exact True.intro

theorem reports_danglingReferences (k : Kubeconfig) : k.Reports k.danglingReferences where
  currentContext _ := mem_danglingReferences.trans dangles_currentContext_iff
  cluster _ _ := mem_danglingReferences.trans dangles_cluster_iff
  user _ _ := mem_danglingReferences.trans dangles_user_iff
  ordered := k.pairwise_danglingReferences

/-- The list that is made is the one report of a kubeconfig. -/
theorem reports_iff {k : Kubeconfig} {report : List DanglingReference} :
    k.Reports report ↔ report = k.danglingReferences := by
  constructor
  · intro h
    exact h.unique k.reports_danglingReferences
  · rintro rfl
    exact k.reports_danglingReferences

/-- The list that is made has all references that lead nowhere, and it is the
only one that has them in order. It repeats none, and a current context that
leads nowhere is its first one. It is empty exactly if all references lead
somewhere, and then there is a current context unless its name is empty. -/
theorem danglingReferences_report (k : Kubeconfig) :
    (∀ report, k.Reports report ↔ report = k.danglingReferences) ∧
      (∀ name, k.danglingReferences.head? = some (.currentContext name) ↔
        k.currentContext = name ∧ name ≠ "" ∧ k.contexts.get? name = none) ∧
      k.danglingReferences.Nodup ∧ (k.danglingReferences = [] ↔ k.Resolved) ∧
      (k.danglingReferences = [] → k.currentContext ≠ "" → ∃ c, k.current = some c) := by
  have hreport := k.reports_danglingReferences
  refine ⟨fun _ => reports_iff, fun name => ?_, hreport.ordered.nodup,
    danglingReferences_eq_nil_iff, fun hnil => ?_⟩
  · rw [← hreport.currentContext]
    exact ⟨List.mem_of_head?, hreport.head?_eq_some⟩
  · exact (danglingReferences_eq_nil_iff.mp hnil).currentContext

/-- The first kubeconfig has no context of the name that is current, and the
contexts `a` and `b` miss a cluster and a user. The second one has an empty
reference, and its current context is there. -/
theorem danglingReferences_report_gone :
    let k := ofContexts [("b", .of "one" "nobody"), ("a", .of "two" "")] [("one", .empty)] "gone"
    let m := ofContexts [("a", .of "one" "")] [("one", .empty)] "a"
    k.danglingReferences = [.currentContext "gone", .cluster "a" "two", .user "b" "nobody"] ∧
      k.Reports [.currentContext "gone", .cluster "a" "two", .user "b" "nobody"] ∧
      m.danglingReferences = [] ∧ ∃ c, m.current = some c := by
  intro k m
  have hk : k.danglingReferences =
      [.currentContext "gone", .cluster "a" "two", .user "b" "nobody"] := by decide +kernel
  have hm : m.danglingReferences = [] := by decide +kernel
  have hcurrent : m.currentContext ≠ "" := by decide
  exact ⟨hk, ((danglingReferences_report k).1 _).mpr hk.symm, hm,
    (danglingReferences_report m).2.2.2.2 hm hcurrent⟩

end Kubeconfig

end PlaneAccess
