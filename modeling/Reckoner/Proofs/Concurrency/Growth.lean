import Reckoner.Proofs.Coordinator.Sound

/-!
# What a step leaves to the others

Whoever changes a store adds only what goes by identifiers of its own (`Extends`). So what another
call has seen of a task or an expression stays true in all that matters to it, and what is final
stays as it is.
-/

namespace Reckoner

namespace TaskTable

structure Grows (drawn : List Uuid) (a b : TaskTable) : Prop where
  kept : ∀ ⦃i t⦄, a.get? i = some t →
    ∃ u, b.get? i = some u ∧ u.blueprint = t.blueprint ∧ (t.isFinished = true → u.isFinished = true)
  origin : ∀ ⦃i u⦄, b.get? i = some u → i.uuid ∈ drawn ∨ ∃ t, a.get? i = some t
  /-- An expression gets no tasks if it has some already, or belongs to another. -/
  idsOf : ∀ o, a.idsOf o ≠ [] ∨ o.uuid ∉ drawn → b.idsOf o = a.idsOf o

theorem exists_of_standing {table : TaskTable} {i : TaskId} {t : Task}
    (hs : (table.get? i).map Task.standing = some t.standing) :
    ∃ u, table.get? i = some u ∧ u.blueprint = t.blueprint ∧
      (t.isFinished = true → u.isFinished = true) := by
  obtain ⟨u, hu, e⟩ := Option.map_eq_some_iff.1 hs
  exact ⟨u, hu, Task.blueprint_eq_of_standing_eq e, Task.isFinished_of_standing_eq e⟩

namespace Grows

theorem refl (drawn : List Uuid) (a : TaskTable) : a.Grows drawn a where
  kept _ t ht := ⟨t, ht, rfl, id⟩
  origin _ u hu := .inr ⟨u, hu⟩
  idsOf _ _ := rfl

theorem trans {drawn more : List Uuid} {a b c : TaskTable} (h : a.Grows drawn b)
    (h' : b.Grows more c) : a.Grows (drawn ++ more) c where
  kept i t ht := by
    obtain ⟨u, hu, hb, hf⟩ := h.kept ht
    obtain ⟨v, hv, hb', hf'⟩ := h'.kept hu
    exact ⟨v, hv, hb'.trans hb, hf' ∘ hf⟩
  origin i v hv := by
    rcases h'.origin hv with hm | ⟨u, hu⟩
    · exact .inl (List.mem_append_right _ hm)
    · exact (h.origin hu).imp_left (List.mem_append_left _)
  idsOf o ho := by
    simp only [List.mem_append, not_or] at ho
    have hfirst := h.idsOf o (ho.imp_right And.left)
    exact (h'.idsOf o (hfirst ▸ ho.imp_right And.right)).trans hfirst

theorem get?_eq_none {drawn : List Uuid} {a b : TaskTable} (h : a.Grows drawn b) {i : TaskId}
    (hi : a.get? i = none) (hd : i.uuid ∉ drawn) : b.get? i = none := by
  refine Option.eq_none_iff_forall_ne_some.2 fun u hu => ?_
  obtain ⟨t, ht⟩ := (h.origin hu).resolve_left hd
  rw [hi] at ht
  cases ht

theorem of_calm {a b : TaskTable} (h : a.Calm b) (drawn : List Uuid) : a.Grows drawn b where
  kept i t ht := exists_of_standing (by rw [h.standing, ht, Option.map_some])
  origin i u hu := by
    obtain ⟨t, ht, -⟩ := h.exists_get? hu
    exact .inr ⟨t, ht⟩
  idsOf o _ := h.idsOf o

theorem put_settle {table : TaskTable} {old t : Task} (hold : table.get? t.id = some old)
    (hb : t.blueprint = old.blueprint) (hf : t.isFinished = true) (p : Task) (drawn : List Uuid) :
    table.Grows drawn ((table.put old t).settle p) where
  kept i u hu := by
    have hs := table.map_get?_put_settle Task.standing_resolve old t p i
    split at hs
    · rename_i e
      cases e
      cases hold.symm.trans hu
      obtain ⟨v, hv, hbv, hfv⟩ := exists_of_standing hs
      exact ⟨v, hv, hbv.trans hb, fun _ => hfv hf⟩
    · rw [hu] at hs
      exact exists_of_standing hs
  origin i u hu := by
    have hs := table.map_get?_put_settle Task.standing_resolve old t p i
    rw [hu] at hs
    split at hs
    · rename_i e
      exact .inr ⟨old, e ▸ hold⟩
    · obtain ⟨v, hv, -⟩ := Option.map_eq_some_iff.1 hs.symm
      exact .inr ⟨v, hv⟩
  idsOf o _ := by rw [idsOf_settle, idsOf_put]

theorem arrived {table : TaskTable} {batch : List Task} (hn : (batch.map Task.id).Nodup)
    (hf : ∀ t ∈ batch, table.get? t.id = none) {owner : ExpressionId}
    (ho : ∀ t ∈ batch, t.owner = owner) (hids : table.idsOf owner = []) :
    table.Grows (owner.uuid :: (batch.map Task.id).map Id.uuid) (table.arrived batch) where
  kept i t ht := exists_of_standing (by
    rw [table.standing_arrived_of_not_mem (not_mem_of_get? hf ht), ht, Option.map_some])
  origin i u hu := by
    obtain ⟨t, ⟨ht, rfl⟩ | ht, -⟩ := exists_get?_of_arrived hn hu
    · exact .inl (List.mem_cons_of_mem _ (List.mem_map_of_mem (List.mem_map_of_mem ht)))
    · exact .inr ⟨t, ht⟩
  idsOf o hne := by
    have howner : owner ≠ o := by
      rintro rfl
      rcases hne with hne | hne
      · exact hne hids
      · exact hne List.mem_cons_self
    have hnone : batch.filter (·.owner = o) = [] :=
      List.filter_eq_nil_iff.2 fun t ht => by simpa [ho t ht] using howner
    rw [idsOf_arrived, hnone, List.map_nil, List.append_nil]

theorem holds {drawn : List Uuid} {a b : TaskTable} (h : a.Grows drawn b) (hi : a.Indexed)
    {times : OperationTimes} {owner : ExpressionId} {stamps : Nat → Stamp} {f : Formula}
    (hh : a.Holds times owner stamps f) : b.Holds times owner stamps f := by
  have hne : a.idsOf owner ≠ [] := by
    rw [← hi.ids_ofOwner, hh.ids_ofOwner]
    simp [Formula.plan, Plan.tasks]
  refine (map_ofOwner_congr (h.idsOf owner (.inl hne)) fun i hm => ?_).trans hh
  obtain ⟨t, ht, -⟩ := hi.mem_idsOf.1 hm
  obtain ⟨u, hu, hb, -⟩ := h.kept ht
  rw [ht, hu, Option.map_some, Option.map_some, hb]

end Grows

end TaskTable

/-! ## Stores -/

def Expression.verdict (e : Expression) : ExpressionStatus × Option Float × Option String :=
  (e.status, e.result, e.error)

namespace Store

variable {times : OperationTimes} {drawn : List Uuid} {s s' : Store}

structure Extends (drawn : List Uuid) (s s' : Store) : Prop where
  tasks : s.tasks.Grows drawn s'.tasks
  kept : ∀ ⦃i : ExpressionId⦄ ⦃e : Expression⦄, s.expressions[i]? = some e →
    ∃ e', s'.expressions[i]? = some e' ∧
    e'.text = e.text ∧ (e.status.isTerminal = true → e'.verdict = e.verdict)
  origin : ∀ ⦃i : ExpressionId⦄ ⦃e' : Expression⦄, s'.expressions[i]? = some e' →
    i.uuid ∈ drawn ∨ ∃ e, s.expressions[i]? = some e

theorem Extends.of_tasks {table : TaskTable} (h : s.tasks.Grows drawn table) :
    s.Extends drawn { s with tasks := table } where
  tasks := h
  kept _ e he := ⟨e, he, rfl, fun _ => rfl⟩
  origin _ e he := .inr ⟨e, he⟩

namespace Extends

theorem trans {more : List Uuid} {s'' : Store} (h : s.Extends drawn s') (h' : s'.Extends more s'') :
    s.Extends (drawn ++ more) s'' where
  tasks := h.tasks.trans h'.tasks
  kept i e he := by
    obtain ⟨e₁, he₁, htext, hv⟩ := h.kept he
    obtain ⟨e₂, he₂, htext', hv'⟩ := h'.kept he₁
    refine ⟨e₂, he₂, htext'.trans htext, fun ht => ?_⟩
    have hstatus : e₁.status = e.status := congrArg Prod.fst (hv ht)
    exact (hv' (hstatus ▸ ht)).trans (hv ht)
  origin i e he := by
    rcases h'.origin he with hm | ⟨e₁, he₁⟩
    · exact .inl (List.mem_append_right _ hm)
    · exact (h.origin he₁).imp_left (List.mem_append_left _)

theorem getElem?_eq_none (h : s.Extends drawn s') {i : ExpressionId} (hi : s.expressions[i]? = none)
    (hd : i.uuid ∉ drawn) : s'.expressions[i]? = none := by
  refine Option.eq_none_iff_forall_ne_some.2 fun e' he' => ?_
  obtain ⟨e, he⟩ := (h.origin he').resolve_left hd
  rw [hi] at he
  cases he

end Extends

def Planned (times : OperationTimes) (s : Store) (i : ExpressionId) : Prop :=
  ∃ e f stamps, s.expressions[i]? = some e ∧ Formula.parse e.text = .ok f ∧
    s.tasks.Holds times i stamps f

/--
What all calls keep up together, each step of each of them. Slots may lag behind results here.
-/
structure Orderly (times : OperationTimes) (s : Store) : Prop where
  indexed : s.tasks.Indexed
  coherent : s.tasks.Coherent
  planned : ∀ ⦃i t⦄, s.tasks.get? i = some t → s.Planned times t.owner
  refused : ∀ ⦃i : ExpressionId⦄ ⦃e : Expression⦄ ⦃cause⦄, s.expressions[i]? = some e →
    Formula.parse e.text = .error cause → e.status.isTerminal = true →
      e.verdict = (.failed, none, some cause.message)

theorem Planned.mono (h : s.Planned times i) (hi : s.tasks.Indexed) (hx : s.Extends drawn s') :
    s'.Planned times i := by
  obtain ⟨e, f, stamps, he, hp, hh⟩ := h
  obtain ⟨e', he', htext, -⟩ := hx.kept he
  exact ⟨e', f, stamps, he', htext ▸ hp, hx.tasks.holds hi hh⟩

namespace Orderly

theorem empty (times : OperationTimes) : Store.empty.Orderly times where
  indexed := .empty
  coherent := TaskTable.Sound.empty.coherent
  planned i t h := by simp [Store.empty] at h
  refused i e cause h := by simp [Store.empty] at h

variable (h : s.Orderly times)
include h

theorem owner {i : TaskId} {t : Task} (ht : s.tasks.get? i = some t) :
    ∃ e, s.expressions[t.owner]? = some e := by
  obtain ⟨e, _, _, he, -⟩ := h.planned ht
  exact ⟨e, he⟩

theorem mono (hx : s.Extends drawn s') (hi : s'.tasks.Indexed) (hc : s'.tasks.Coherent)
    (hnew : ∀ ⦃i t⦄, s'.tasks.get? i = some t → (∃ u, s.tasks.get? i = some u) ∨
      s'.Planned times t.owner)
    (hrefused : ∀ ⦃i : ExpressionId⦄ ⦃e : Expression⦄ ⦃cause⦄, s'.expressions[i]? = some e →
      Formula.parse e.text = .error cause → e.status.isTerminal = true →
        e.verdict = (.failed, none, some cause.message)) : s'.Orderly times where
  indexed := hi
  coherent := hc
  planned i t ht := by
    rcases hnew ht with ⟨u, hu⟩ | hp
    · obtain ⟨v, hv, hb, -⟩ := hx.tasks.kept hu
      cases ht.symm.trans hv
      rw [(Task.fields_of_blueprint hb).2.1]
      exact (h.planned hu).mono h.indexed hx
    · exact hp
  refused := hrefused

end Orderly

end Store

end Reckoner
