import Reckoner.Proofs.Concurrency.Moves

/-!
# Each step is a move

One lemma for every step that a call can take. None of the store functions behind them fails: what
the call has read before rules it out.
-/

namespace Reckoner

namespace Stage

variable {c : Coordinator} (h : c.store.Orderly c.times)
include h

theorem moves_create {text : String} {stamp : Stamp} {stamps : Nat → Stamp} {now : Instant}
    (hv : (create text stamp stamps now).Valid c.times c.store) :
    Moves c.times c.store (createStep c text stamp stamps now).2 (create text stamp stamps now)
      (createStep c text stamp stamps now).1 := by
  have hnew : c.store.expressions[(⟨stamp.uuid⟩ : ExpressionId)]? = none :=
    hv.expressions _ Call.stamp_mem_draws
  have hexpr := c.store.getElem?_createExpression text stamp
  have hfiled := (hexpr ⟨stamp.uuid⟩).trans (if_pos rfl)
  have hclaimed : stamp.uuid ∈ (Call.submit text stamp stamps now).draws := Call.stamp_mem_draws
  unfold createStep
  cases hp : Formula.parse text with
  | error cause =>
    refine .files h rfl hexpr (.inl ⟨hnew, hclaimed⟩) (fun _ _ ht => by cases ht) rfl
      ⟨_, cause, hfiled, hp, rfl⟩ (List.nil_sublist _) rfl (fun _ _ => ⟨nofun, nofun⟩)
      fun P O _ f hf => ?_
    cases hp.symm.trans hf
  | ok f =>
    obtain ⟨hn, hfree⟩ := Call.Fresh.plan hp c.times ⟨stamp.uuid⟩ hv
    have hid : (c.store.createExpression text stamp).1.id = ⟨stamp.uuid⟩ := rfl
    dsimp only
    rw [hid, checkShape_plan f hn]
    refine .files h rfl hexpr (.inl ⟨hnew, hclaimed⟩) (fun _ _ ht => by cases ht) rfl
      ⟨Store.idsOf_eq_nil h.indexed (fun _ _ => h.owner) hnew, hn, hfree, _, f, stamps, hfiled, hp,
        rfl⟩ ?_ rfl (fun _ _ => ⟨nofun, nofun⟩)
      fun P O _ _ _ => .inl (.inr rfl)
    change List.Sublist _ (Call.submit text stamp stamps now).draws
    rw [Call.draws_eq hp c.times ⟨stamp.uuid⟩]
    exact .refl _

theorem moves_refuse {id : ExpressionId} {message : String} {fault : Fault} {now : Instant}
    (hv : (refuse id message fault now).Valid c.times c.store) :
    Moves c.times c.store ((refuse id message fault now).step c).2 (refuse id message fault now)
      ((refuse id message fault now).step c).1 := by
  obtain ⟨e, cause, he, hp, rfl⟩ := hv
  obtain ⟨s', hs', htasks, hexpr⟩ := Store.modifyExpression_eq_ok he (·.fail cause.message now) now
  unfold step
  simp only [hs']
  refine .files h htasks hexpr (.inr ⟨e, he, rfl, fun ht => (h.refused he hp ht).symm⟩)
    (fun cause' hp' _ => ?_) rfl
    trivial (List.nil_sublist _) rfl (fun _ _ => ⟨nofun, nofun⟩) fun P O _ f hf => ?_
  · cases hp.symm.trans hp'
    rfl
  · cases hp.symm.trans hf

theorem moves_save {id : ExpressionId} {tasks : List Task} {now : Instant}
    (hv : (save id tasks now).Valid c.times c.store) :
    Moves c.times c.store ((save id tasks now).step c).2 (save id tasks now)
      ((save id tasks now).step c).1 := by
  obtain ⟨hids, hn, hf, e, f, stamps, he, hp, rfl⟩ := hv
  have hinsert : c.store.tasks.insertAll (f.plan c.times id stamps) =
      (.ok (), c.store.tasks.arrived (f.plan c.times id stamps)) := TaskTable.insertAll_eq_ok hn hf
  have howner : ∀ t ∈ f.plan c.times id stamps, t.owner = id := fun t ht => Plan.owner_of_mem ht
  have hframe := TaskTable.Grows.arrived hn hf howner hids
  have hholds : (c.store.tasks.arrived (f.plan c.times id stamps)).Holds c.times id stamps f :=
    .of_standing rfl (TaskTable.standing_ofOwner_arrived hn howner hids)
  unfold step Store.saveTasks
  simp only [hinsert]
  have hx := Store.Extends.of_tasks hframe
  have hplanned : Store.Planned c.times
      { c.store with tasks := c.store.tasks.arrived (f.plan c.times id stamps) } id :=
        ⟨e, f, stamps, he, hp, hholds⟩
  refine ⟨?_, hx, fun _ => rfl, hplanned, List.nil_sublist _, nofun,
    fun i e' he' P O hcov g hg => ?_⟩
  · refine h.mono hx ((h.indexed.foldl_add hn hf).foldl_settle _)
      ((h.coherent.foldl_add hn fun t ht => Plan.coherent_of_mem ht).foldl_settle _)
      (fun i t ht => ?_) h.refused
    obtain ⟨u, ⟨hu, -⟩ | hu, hs⟩ := TaskTable.exists_get?_of_arrived hn ht
    · rw [Task.owner_eq_of_standing_eq hs, howner u hu]
      exact .inr hplanned
    · exact .inl ⟨u, hu⟩
  · by_cases hi : id = i
    · cases hi
      cases he.symm.trans he'
      cases hp.symm.trans hg
      exact .inr ⟨stamps, hholds, .inr (.inr (.inr rfl))⟩
    · refine (hcov e' he' g hg).imp (.imp_right fun e => absurd e hi) fun ⟨stamps', hh, hs⟩ => ?_
      obtain ⟨hsame, hget⟩ := TaskTable.standing_arrived_of_ne h.indexed hf (o := i) fun t ht =>
        howner t ht ▸ hi
      refine ⟨stamps', hframe.holds h.indexed hh, hs.imp_right (.imp (fun hu => ?_) fun ho => ?_)⟩
      · exact hu.congr (TaskTable.map_ofOwner_congr hsame hget)
      · exact .inl (ho.resolve_right nofun)

theorem moves_link {id : ExpressionId} {ids : List TaskId} {now : Instant}
    (hv : (link id ids now).Valid c.times c.store) :
    Moves c.times c.store ((link id ids now).step c).2 (link id ids now)
      ((link id ids now).step c).1 := by
  obtain ⟨e, f, stamps, he, hp, hh⟩ := hv
  obtain ⟨s', hs', htasks, hexpr⟩ :=
    Store.modifyExpression_eq_ok he (fun e => { e with taskIds := ids }) now
  unfold step
  simp only [hs']
  refine .files h htasks hexpr (.inr ⟨e, he, rfl, fun _ => rfl⟩) (fun cause hp' _ => ?_) rfl
    ⟨_, f, stamps, (hexpr id).trans (if_pos rfl), hp, htasks ▸ hh⟩ (List.nil_sublist _) rfl
    (fun i hi => ⟨nofun, Ne.symm hi⟩) fun P O hcov => ?_
  · cases hp.symm.trans hp'
  · have hc := hcov e he
    unfold Store.Covers Store.tasksOf at hc ⊢
    rw [htasks]
    exact hc

theorem moves_requeueOverdue (now : Instant) {stage next : Stage} (hfree : stage.IsFree)
    (hv : next.Valid c.times (c.requeueOverdue now).2.store) (hclaims : next.claims = [])
    (hlock : next.holdsLock = false) :
    Moves c.times c.store (c.requeueOverdue now).2.store stage next :=
  .calm h (.foldl_requeue _ h.indexed) (h.indexed.foldl_requeue _)
    (h.coherent.foldl_requeue _ h.indexed) hfree hv hclaims hlock

theorem moves_handOut (started : Instant) :
    Moves c.times c.store ((handOut started).step c).2 (handOut started)
      ((handOut started).step c).1 := by
  unfold step
  dsimp only
  cases hd : c.store.tasks.dispatch? started with
  | none => exact .reads h (fun _ => ⟨nofun, nofun⟩) trivial rfl rfl
  | some out =>
    obtain ⟨t, table⟩ := out
    obtain ⟨u, hu, he, rfl, rfl⟩ := TaskTable.dispatch?_eq_some h.indexed hd
    have hp := (TaskTable.isEligible_iff.1 he).1
    exact .calm h (.put (t := u.start started) hu (u.standing_start started hp))
      (h.indexed.put (t := u.start started) hu rfl rfl)
      (h.coherent.put u ((h.coherent hu).start hp started))
      (fun _ => ⟨nofun, nofun⟩) trivial rfl rfl

theorem moves_fetch (id : TaskId) (r : Report) (now : Instant) :
    Moves c.times c.store ((fetch id r now).step c).2 (fetch id r now)
      ((fetch id r now).step c).1 := by
  unfold step Store.task
  dsimp only
  cases ht : c.store.tasks.get? id with
  | none => exact .reads h (fun _ => ⟨nofun, nofun⟩) trivial rfl rfl
  | some t =>
    cases h.indexed.id_eq ht
    exact .reads h (fun _ => ⟨nofun, nofun⟩) ⟨r.coherent_apply t now, r.isFinished_apply t now, t,
      TaskTable.get?_apply ht r now, r.blueprint_apply t now⟩ rfl rfl

theorem moves_update {t : Task} {now : Instant} (hv : (update t now).Valid c.times c.store) :
    Moves c.times c.store ((update t now).step c).2 (update t now) ((update t now).step c).1 := by
  obtain ⟨hc, hf, old, hold, hb⟩ := hv
  obtain ⟨hid, ho, -, hd, -⟩ := Task.fields_of_blueprint hb
  have hreplace : c.store.tasks.replace t = (.ok (), (c.store.tasks.put old t).settle t) :=
    TaskTable.replace_eq_ok hold ho hd
  unfold step Store.updateTask
  simp only [hreplace]
  have hframe := Store.Extends.of_tasks (TaskTable.Grows.put_settle hold hb hf t [])
  have hplanned : Store.Planned c.times _ t.owner := ho ▸ (h.planned hold).mono h.indexed hframe
  refine ⟨?_, hframe, fun _ => rfl, hplanned, List.nil_sublist _, nofun,
    fun i e he P O hcov f hp => ?_⟩
  · refine h.mono hframe ((h.indexed.put hold ho hd).settle t) ((h.coherent.put old hc).settle t)
      (fun i u hu => ?_) h.refused
    exact .inl ((hframe.tasks.origin hu).resolve_left List.not_mem_nil)
  · refine (hcov e he f hp).imp (.imp_right nofun) fun ⟨stamps, hh, hs⟩ => ?_
    refine ⟨stamps, hframe.tasks.holds h.indexed hh, ?_⟩
    by_cases hi : t.owner = i
    · exact .inr (.inr (.inr hi))
    · refine hs.imp_right (.imp (fun hu => hu.congr ?_) fun ho => .inl (ho.resolve_right nofun))
      exact TaskTable.map_ofOwner_congr (by rw [TaskTable.idsOf_settle, TaskTable.idsOf_put])
        (h.indexed.standing_put_settle_of_ne hold t (ho ▸ hi))

theorem moves_inspect {id : ExpressionId} {asker : Asker} {now : Instant}
    (hv : (inspect id asker now).Valid c.times c.store) :
    Moves c.times c.store c.store (inspect id asker now) (inspectStep c.store id asker now) := by
  have hplanned := hv
  obtain ⟨e, f, stamps, he, hp, hh⟩ := hv
  unfold inspectStep
  rw [Store.expression_eq_ok.2 he]
  dsimp only
  split
  · rename_i ht
    have hnext : (asker.next id).Valid c.times c.store ∧ (asker.next id).claims = [] ∧
        (asker.next id).holdsLock = false := by cases asker <;> exact ⟨trivial, rfl, rfl⟩
    obtain ⟨hvalid, hclaims, hlock⟩ := hnext
    refine .still h hvalid (hclaims ▸ List.nil_sublist _) (by simp [hlock]) (fun _ => nofun)
      fun i e' he' hi => .inl ?_
    cases hi
    cases he.symm.trans he'
    exact ht
  · rename_i ht
    refine .still h ⟨hplanned, he, by simpa using ht, hh.exists_conclusive h.indexed h.coherent⟩
      (List.nil_sublist _) (fun _ => rfl) (fun _ => nofun) fun i e' he' hi => .inr ?_
    cases hi
    by_cases hu : Outcome.Unsettled (c.store.tasksOf id)
    · exact .inl hu
    · exact .inr ⟨rfl, hu⟩

theorem moves_conclude {id : ExpressionId} {e : Expression} {tasks : List Task} {asker : Asker}
    {now : Instant} (hv : (conclude id e tasks asker now).Valid c.times c.store) :
    Moves c.times c.store (concludeStep c.store id e tasks asker now).2
      (conclude id e tasks asker now) (concludeStep c.store id e tasks asker now).1 := by
  obtain ⟨⟨e', f, stamps, he', hp, hh⟩, he, ht, o, ho, hwait⟩ := hv
  cases he.symm.trans he'
  have hnext : ∀ s, (asker.next id).Valid c.times s := fun s => by cases asker <;> trivial
  have htext := (e.recomputed_fields o now).2.1
  unfold concludeStep
  simp only [ho]
  refine .files h rfl (c.store.getElem?_insert id _) (.inr ⟨e, he, htext, fun hterm => ?_⟩)
    (fun cause hp' _ => ?_) rfl
    (hnext _) (by cases asker <;> exact List.nil_sublist _) (by cases asker <;> rfl)
    (fun i hi => ⟨nofun, fun howes => hi howes.1.symm⟩) fun P O hcov g hg => ?_
  · rw [ht] at hterm
    cases hterm
  · rw [htext, hp] at hp'
    cases hp'
  · rw [htext] at hg
    refine (hcov e he g hg).imp (fun hP => .inl (hP.resolve_right nofun)) fun ⟨stamps', hh', hs⟩ =>
      ⟨stamps', hh', ?_⟩
    by_cases hin : o = .inProgress
    · -- a snapshot that leaves the expression open has not been owed to anybody
      have hu := hwait hin
      rcases hs with hterm | hunsettled | hO
      · rw [ht] at hterm
        cases hterm
      · exact .inr (.inl hunsettled)
      · exact .inr (.inr (.inl (hO.resolve_right fun howes => howes.2 hu)))
    · exact .inl (e.terminal_recomputed now hin)

theorem moves {stage : Stage} (hv : stage.Valid c.times c.store) :
    Moves c.times c.store (stage.step c).2 stage (stage.step c).1 := by
  cases stage with
  | create text stamp stamps now => exact moves_create h hv
  | refuse id message fault now => exact moves_refuse h hv
  | save id tasks now => exact moves_save h hv
  | link id ids now => exact moves_link h hv
  | takeBack asked started =>
    exact moves_requeueOverdue h asked (fun _ => ⟨nofun, nofun⟩) trivial rfl rfl
  | handOut started => exact moves_handOut h started
  | requeue now => exact moves_requeueOverdue h now (fun _ => ⟨nofun, nofun⟩) trivial rfl rfl
  | fetch id r now => exact moves_fetch h id r now
  | update t now => exact moves_update h hv
  | inspect id asker now => exact moves_inspect h hv
  | conclude id e tasks asker now => exact moves_conclude h hv
  | look id => exact .reads h (fun _ => ⟨nofun, nofun⟩) trivial rfl rfl
  | done answer => exact .reads h (fun _ => ⟨nofun, nofun⟩) trivial rfl rfl

end Stage

end Reckoner
