import Reckoner.Proofs.Task.Plan

/-!
# Outcomes of plans

The tasks of a plan always have an outcome: whatever has been reported for them, the graph under
them is the tree of the plan, and its root is the last task.
-/

namespace Reckoner

variable {times : OperationTimes} {owner : ExpressionId} {stamps : Nat → Stamp}

theorem checkShape_plan (f : Formula) (hn : ((f.plan times owner stamps).map Task.id).Nodup) :
    Coordinator.checkShape (f.plan times owner stamps) = .ok () := by
  have ht := Plan.tree f 0 hn
  have hg : TaskGraph.ofTasks (f.plan times owner stamps) = _ :=
    ht.ofTasks (by simp [Formula.plan, Plan.tasks])
  simp only [Coordinator.checkShape, hg]
  have : TaskGraph.isTree ⟨_⟩ = true := ht.isTree
  simp only [bind, Except.bind, this, if_true]
  rfl

namespace Outcome

variable {tasks : List Task}

theorem ofTasks_of_failed (hf : ∃ t ∈ tasks, t.status = .failed) :
    ∃ t ∈ tasks, t.status = .failed ∧ ofTasks tasks =
      .ok (.failed (t.error.getD unnamedFailure)) := by
  cases hs : tasks.find? fun t => t.status == .failed with
  | none =>
    obtain ⟨t, ht, hf⟩ := hf
    exact absurd (beq_iff_eq.2 hf) (List.find?_eq_none.1 hs t ht)
  | some t =>
    refine ⟨t, List.mem_of_find?_eq_some hs, beq_iff_eq.1 (List.find?_some hs :), ?_⟩
    simp only [ofTasks, hs]

theorem find?_failed_eq_none (hf : ∀ t ∈ tasks, t.status ≠ .failed) :
    (tasks.find? fun t => t.status == .failed) = none :=
  List.find?_eq_none.2 fun t ht => by simpa using hf t ht

theorem ofTasks_of_waiting (hf : ∀ t ∈ tasks, t.status ≠ .failed)
    (hw : ∃ t ∈ tasks, t.status ≠ .completed) : ofTasks tasks = .ok .inProgress := by
  have hany : (tasks.any fun t => t.status != .completed) = true := by simpa using hw
  simp [ofTasks, find?_failed_eq_none hf, hany]

theorem ofTasks_of_completed {f : Formula} (hb : tasks.map Task.blueprint =
    (f.plan times owner stamps).map Task.blueprint)
    (hn : ((f.plan times owner stamps).map Task.id).Nodup) (hc : ∀ t ∈ tasks, t.status = .completed)
    (hcoherent : ∀ t ∈ tasks, t.Coherent) :
    ∃ t r, tasks.getLast? = some t ∧ t.completedResult = some r ∧
      ofTasks tasks = .ok (.resolved r) := by
  have htree := Plan.tree f 0 hn
  have hnodes : tasks.map Task.node = (Plan.ofFormula times owner stamps 0 f).before.map
      Task.node ++
        [(Plan.ofFormula times owner stamps 0 f).root.node] := by
    rw [Task.map_node_eq hb]
    simp [Formula.plan, Plan.tasks]
  -- the graph is made from the tasks as they are, so its root is the last of them
  obtain ⟨ts, ts', rfl, -, hroot⟩ := List.map_eq_append_iff.1 hnodes
  obtain ⟨t, rfl, hnode⟩ := List.map_eq_singleton_iff.1 hroot
  have hid : (Plan.ofFormula times owner stamps 0 f).root.node.id = t.id := by
    rw [← hnode]; rfl
  have hlast : (ts ++ [t]).getLast? = some t := by simp
  have hmem : t ∈ ts ++ [t] := by simp
  have hids : ((ts ++ [t]).map Task.id).Nodup := by
    have e := congrArg (List.map TaskGraph.Node.id) hnodes
    rw [List.map_map] at e
    have := htree.nodup
    rw [← e] at this
    exact this
  obtain ⟨r, hr⟩ :=
    Option.isSome_iff_exists.1 ((hcoherent t hmem).completedResult_isSome (hc t hmem))
  refine ⟨t, r, hlast, hr, ?_⟩
  have hfind : ((ts ++ [t]).find? fun u => u.id == t.id) = some t := find?_of_nodup hids hmem
  have hcompleted : ofCompleted (ts ++ [t]) = .ok (.resolved r) := by
    simp only [ofCompleted, htree.ofTasks hnodes, bind, Except.bind, htree.root_eq, hid, hfind,
      Option.bind_some, hr]
  have hf : ∀ u ∈ ts ++ [t], u.status ≠ .failed := fun u hu => by simp [hc u hu]
  have hany : ((ts ++ [t]).any fun u => u.status != .completed) = false := by
    rw [List.any_eq_false]
    intro u hu
    simp [hc u hu]
  rw [ofTasks, find?_failed_eq_none hf]
  simp only [hany, Bool.or_false, hcompleted]
  simp

theorem cases_of_plan {f : Formula} (hb : tasks.map Task.blueprint =
    (f.plan times owner stamps).map Task.blueprint)
    (hn : ((f.plan times owner stamps).map Task.id).Nodup) (hcoherent : ∀ t ∈ tasks, t.Coherent) :
    (∃ t ∈ tasks, t.status = .failed ∧ ofTasks tasks =
      .ok (.failed (t.error.getD unnamedFailure))) ∨
    ((∀ t ∈ tasks, t.status ≠ .failed) ∧ (∃ t ∈ tasks, t.status ≠ .completed) ∧
      ofTasks tasks = .ok .inProgress) ∨
    ((∀ t ∈ tasks, t.status = .completed) ∧
      ∃ t r, tasks.getLast? = some t ∧ t.completedResult = some r ∧
        ofTasks tasks = .ok (.resolved r)) := by
  by_cases hf : ∃ t ∈ tasks, t.status = .failed
  · exact .inl (ofTasks_of_failed hf)
  · have hf : ∀ t ∈ tasks, t.status ≠ .failed := fun t ht h => hf ⟨t, ht, h⟩
    by_cases hw : ∃ t ∈ tasks, t.status ≠ .completed
    · exact .inr (.inl ⟨hf, hw, ofTasks_of_waiting hf hw⟩)
    · have hc : ∀ t ∈ tasks, t.status = .completed := fun t ht => by
        by_contra h
        exact hw ⟨t, ht, h⟩
      exact .inr (.inr ⟨hc, ofTasks_of_completed hb hn hc hcoherent⟩)

end Outcome

end Reckoner
