import Lisp.Repl.Backspace
import Mathlib.Data.List.Basic

/-! Once the backspaces of an entry have taken effect, none of them is left in it. -/

set_option autoImplicit false

namespace Lisp

namespace Text

/-! ## Control characters -/

theorem alone_reverse {c : Char} {begun : List Char} (alone : c ∈ begun → begun = [c])
    (mem : c ∈ begun.reverse) : begun.reverse = [c] := by
  rw [alone (List.mem_reverse.mp mem), List.reverse_singleton]

variable {control : Char} (role : ClusterRole.ofChar control = .control)

include role

theorem continuesCluster_control (begun : List Char) : continuesCluster begun control = false := by
  cases begun with
  | nil => rfl
  | cons last earlier => simp [continuesCluster, role, ClusterRole.standsAlone]

theorem continuesCluster_afterControl (earlier : List Char) (c : Char) :
    continuesCluster (control :: earlier) c = false := by
  simp [continuesCluster, role, ClusterRole.standsAlone]

theorem control_alone_clustersFrom {begun cs : List Char}
    (alone : control ∈ begun → begun = [control]) :
    ∀ cluster ∈ clustersFrom begun cs, control ∈ cluster → cluster = [control] := by
  induction cs generalizing begun with
  | nil => exact List.forall_mem_singleton.mpr (alone_reverse alone)
  | cons c rest ih =>
      rw [clustersFrom]
      split
      · next continues =>
          refine ih fun mem => absurd continues ?_
          rw [Bool.not_eq_true]
          rcases List.mem_cons.mp mem with rfl | earlier
          · exact continuesCluster_control role begun
          · rw [alone earlier]
            exact continuesCluster_afterControl role [] c
      · refine List.forall_mem_cons.mpr ⟨alone_reverse alone, ih fun mem => ?_⟩
        rw [List.mem_singleton.mp mem]

/-- A control character is a cluster of its own. -/
theorem control_alone_clusters (cs : List Char) :
    ∀ cluster ∈ clusters cs, control ∈ cluster → cluster = [control] := by
  cases cs with
  | nil => exact List.forall_mem_nil _
  | cons c rest =>
      refine control_alone_clustersFrom role fun mem => ?_
      rw [List.mem_singleton.mp mem]

end Text

namespace Repl

/-! ## Backspaces -/

theorem backspace_notMem_typeCluster {left : List (List Char)} {cluster : List Char}
    (cleared : ∀ typed ∈ left, backspace ∉ typed)
    (alone : backspace ∈ cluster → cluster = [backspace]) :
    ∀ typed ∈ typeCluster left cluster, backspace ∉ typed := by
  rw [typeCluster]
  split
  · exact fun typed mem => cleared typed (List.mem_of_mem_tail mem)
  · next other => exact List.forall_mem_cons.mpr ⟨fun mem => other (alone mem), cleared⟩

theorem backspace_notMem_foldl {clusters left : List (List Char)}
    (alone : ∀ cluster ∈ clusters, backspace ∈ cluster → cluster = [backspace])
    (cleared : ∀ typed ∈ left, backspace ∉ typed) :
    ∀ typed ∈ clusters.foldl typeCluster left, backspace ∉ typed := by
  induction clusters generalizing left with
  | nil => exact cleared
  | cons cluster rest ih =>
      obtain ⟨first, others⟩ := List.forall_mem_cons.mp alone
      exact ih others (backspace_notMem_typeCluster cleared first)

theorem backspace_notMem_applyBackspaces (text : List Char) : backspace ∉ applyBackspaces text := by
  rw [applyBackspaces]
  split
  · intro mem
    obtain ⟨typed, left, inside⟩ := List.mem_flatten.mp mem
    have role : Text.ClusterRole.ofChar backspace = .control := rfl
    have alone := Text.control_alone_clusters role text
    exact backspace_notMem_foldl alone (List.forall_mem_nil _) typed (List.mem_reverse.mp left) inside
  · next absent => simpa using absent

end Repl

end Lisp
