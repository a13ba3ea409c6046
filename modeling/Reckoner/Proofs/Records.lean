import Reckoner.Proofs.History

/-!
# Records

Every submission files one record for good, with its identifier, its text and its time, and the
tasks of its own plan; whatever comes later, nothing of that is lost, changed or filed twice.
-/

namespace Reckoner

structure Entry where
  id : ExpressionId
  text : String
  createdAt : Instant
deriving DecidableEq, Repr

namespace Entry

def order : Entry → Entry → Ordering := compareLex (compareOn createdAt) (compareOn id)

theorem id_eq_of_order {x y : Entry} (hxy : (order x y).isLE) (hyx : (order y x).isLE) :
    x.id = y.id := by
  have h : compareLex (compareOn createdAt) (compareOn id) x y = .eq :=
    Std.OrientedCmp.isLE_antisymm hxy hyx
  simp only [compareLex, compareOn, Ordering.then_eq_eq, Std.compare_eq_iff_eq] at h
  exact h.2

theorem order_of_lt {x y : Entry} (h : compare x.createdAt y.createdAt = .lt) :
    (order x y).isLE := by
  simp [order, compareLex, compareOn, h]

end Entry

def Expression.entry (e : Expression) : Entry := ⟨e.id, e.text, e.createdAt⟩

def Call.entry? : Call → Option Entry
  | submit text stamp _ _ => some ⟨⟨stamp.uuid⟩, text, stamp.time⟩
  | _ => none

def entries (calls : List Call) : List Entry := calls.filterMap Call.entry?

theorem entries_snoc (calls : List Call) (call : Call) :
    entries (calls ++ [call]) = entries calls ++ call.entry?.toList := by
  rw [entries, List.filterMap_append]
  cases h : call.entry? <;> simp [entries, h]

theorem ids_entries_sublist (calls : List Call) :
    (((entries calls).map Entry.id).map Id.uuid).Sublist (calls.flatMap Call.draws) := by
  induction calls with
  | nil => exact .slnil
  | cons call rest ih =>
    cases call with
    | submit text stamp stamps now =>
      have hstamp : [stamp.uuid].Sublist (Call.submit text stamp stamps now).draws :=
        List.singleton_sublist.2 Call.stamp_mem_draws
      exact hstamp.append ih
    | _ => exact ih

theorem nodup_ids_entries {calls : List Call} (hd : (calls.flatMap Call.draws).Nodup) :
    ((entries calls).map Entry.id).Nodup :=
  ((ids_entries_sublist calls).nodup hd).of_map _

theorem mem_entries {calls : List Call} {x : Entry} : x ∈ entries calls ↔
    ∃ text stamp stamps now, .submit text stamp stamps now ∈ calls ∧
      (⟨⟨stamp.uuid⟩, text, stamp.time⟩ : Entry) = x := by
  rw [entries, List.mem_filterMap]
  constructor
  · rintro ⟨call, hc, hx⟩
    cases call with
    | submit text stamp stamps now => exact ⟨text, stamp, stamps, now, hc, Option.some.inj hx⟩
    | _ => cases hx
  · rintro ⟨text, stamp, stamps, now, hc, rfl⟩
    exact ⟨_, hc, rfl⟩

namespace Store

/-! ## Listing expressions -/

theorem mem_listExpressions {s : Store} {e : Expression} :
    e ∈ s.listExpressions ↔ ∃ i : ExpressionId, s.expressions[i]? = some e := by
  rw [listExpressions, List.mem_mergeSort, mem_values]

theorem Sound.mem_listExpressions {times : OperationTimes} {s : Store} (h : s.Sound times)
    {e : Expression} : e ∈ s.listExpressions ↔ s.expressions[e.id]? = some e := by
  rw [Store.mem_listExpressions]
  constructor
  · rintro ⟨i, he⟩
    rw [h.id_eq he, he]
  · exact fun he => ⟨_, he⟩

theorem Sound.nodup_ids_listExpressions {times : OperationTimes} {s : Store} (h : s.Sound times) :
    (s.listExpressions.map Expression.id).Nodup := by
  have hperm : (s.listExpressions.map Expression.id).Perm s.expressions.keys :=
    ((List.mergeSort_perm _ _).map Expression.id).trans (.of_eq (map_values (h.id_eq ·)))
  exact hperm.nodup_iff.2 Std.TreeMap.nodup_keys

theorem notYounger_trans (a b c : Expression) (hab : notYounger a b = true)
    (hbc : notYounger b c = true) : notYounger a c = true := by
  have h : (compareLex (compareOn Expression.createdAt) (compareOn Expression.id) a c).isLE :=
    Std.TransCmp.isLE_trans hab hbc
  exact h

theorem notYounger_total (a b : Expression) : (notYounger a b || notYounger b a) = true := by
  have h : compareLex (compareOn Expression.createdAt) (compareOn Expression.id) a b =
      (compareLex (compareOn Expression.createdAt) (compareOn Expression.id) b a).swap :=
        Std.OrientedCmp.eq_swap
  simp only [notYounger, h]
  cases compareLex (compareOn Expression.createdAt) (compareOn Expression.id) b a <;> rfl

theorem pairwise_listExpressions (s : Store) :
    s.listExpressions.Pairwise fun a b => notYounger a b = true :=
  List.pairwise_mergeSort notYounger_trans notYounger_total _

end Store

namespace Coordinator

/-! ## Runs -/

section
variable (times : OperationTimes) (lease : Option Duration) {calls : List Call}

/-- Under every identifier stands what the submission with this identifier has filed. -/
theorem map_entry_run (hd : (calls.flatMap Call.draws).Nodup) (i : ExpressionId) :
    (((initial times lease).run calls).store.expressions[i]?).map Expression.entry =
      (entries calls).find? fun x => x.id == i := by
  refine run_induction times lease [] (P := fun calls =>
    (((initial times lease).run calls).store.expressions[i]?).map Expression.entry =
      (entries calls).find? fun x => x.id == i) ?_ ?_ hd
  · simp [initial, Store.empty, entries]
  · rintro calls call c rfl hs hf ih
    rw [List.nil_append] at hs hf
    rw [run_snoc, entries_snoc, List.find?_append, ← ih]
    cases call with
    | submit text stamp stamps now =>
      obtain ⟨e, hid, htext, htime, hexpr⟩ := expressions_submit hs hf
      have hentry : e.entry = ⟨⟨stamp.uuid⟩, text, stamp.time⟩ := by
        rw [Expression.entry, hid, htext, htime]
      rw [after, hexpr]
      split
      · rename_i hi
        rw [← hi, hf.expressions _ Call.stamp_mem_draws]
        simp [Call.entry?, hentry]
      · rename_i hi
        simp [Call.entry?, hi]
    | nextTask asked started =>
      rw [after, expressions_nextTask]
      simp [Call.entry?]
    | requeue now => simp [after, requeueOverdue, Call.entry?]
    | report id r now =>
      suffices hkept :
          ((((initial times lease).run calls).report id r now).2.store.expressions[i]?).map
          Expression.entry =
            (((initial times lease).run calls).store.expressions[i]?).map Expression.entry by
        simpa [after, Call.entry?] using hkept
      cases ht : ((initial times lease).run calls).store.tasks.get? id with
      | none => rw [report_eq_of_unknown ht]
      | some t =>
        obtain ⟨e, f, stamps, o, s', he, hid, -, -, -, hs', hexpr⟩ := report_eq hs ht r now
        rw [hs', hexpr]
        split
        · rename_i hi
          rw [← hi, hid, he]
          obtain ⟨hid', htext, -⟩ := e.recomputed_fields o now
          simp [Expression.entry, hid', htext, e.createdAt_recomputed o now]
        · rfl

theorem perm_listExpressions (hd : (calls.flatMap Call.draws).Nodup) :
    (((initial times lease).run calls).store.listExpressions.map Expression.entry).Perm
      (entries calls) := by
  have hs := sound_run times lease hd
  have hlisted : ((((initial times lease).run calls).store.listExpressions.map Expression.entry).map
      Entry.id).Nodup := by
    rw [List.map_map]
    exact hs.nodup_ids_listExpressions
  refine (List.perm_ext_iff_of_nodup hlisted.of_map (nodup_ids_entries hd).of_map).2 fun x => ?_
  have hrun := map_entry_run times lease hd x.id
  rw [List.mem_map]
  constructor
  · rintro ⟨e, he, rfl⟩
    have he : _ = some e := hs.mem_listExpressions.1 he
    rw [Expression.entry, he] at hrun
    exact List.mem_of_find?_eq_some hrun.symm
  · intro hx
    rw [find?_of_nodup (nodup_ids_entries hd) hx] at hrun
    obtain ⟨e, he, rfl⟩ := Option.map_eq_some_iff.1 hrun
    exact ⟨e, Store.mem_listExpressions.2 ⟨_, he⟩, rfl⟩

theorem listExpressions_eq (hd : (calls.flatMap Call.draws).Nodup)
    (ht : (entries calls).Pairwise fun x y => compare x.createdAt y.createdAt = .lt) :
    ((initial times lease).run calls).store.listExpressions.map Expression.entry =
      entries calls := by
  have hperm := perm_listExpressions times lease hd
  have hlisted :
      (((initial times lease).run calls).store.listExpressions.map Expression.entry).Pairwise
      fun x y => (Entry.order x y).isLE = true :=
        List.pairwise_map.2 (Store.pairwise_listExpressions _)
  refine List.Perm.eq_of_pairwise (fun x y hx hy hxy hyx => ?_) hlisted
    (ht.imp Entry.order_of_lt) hperm
  exact List.inj_on_of_nodup_map (nodup_ids_entries hd) (hperm.mem_iff.1 hx) hy
    (Entry.id_eq_of_order hxy hyx)

theorem exists_submit (hd : (calls.flatMap Call.draws).Nodup) {e : Expression}
    (he : e ∈ ((initial times lease).run calls).store.listExpressions) :
    ∃ text stamp stamps now, .submit text stamp stamps now ∈ calls ∧
      e.entry = ⟨⟨stamp.uuid⟩, text, stamp.time⟩ := by
  have hx := (perm_listExpressions times lease hd).mem_iff.1 (List.mem_map_of_mem he)
  obtain ⟨text, stamp, stamps, now, hc, hx⟩ := mem_entries.1 hx
  exact ⟨text, stamp, stamps, now, hc, hx.symm⟩

end

/--
After any run the expressions in their list are one for each submission, in its order if the times
of submission increase. Each has the tasks of the plan that its own submission made, as they were
made up to what has been reported, or none if its text cannot be read; and no task has two owners.
-/
theorem keeps_submissions (times : OperationTimes) (lease : Option Duration) {calls : List Call}
    (hd : (calls.flatMap Call.draws).Nodup) :
    let s := ((initial times lease).run calls).store
    (s.listExpressions.map Expression.entry).Perm (entries calls) ∧
    ((entries calls).Pairwise (fun x y => compare x.createdAt y.createdAt = .lt) →
      s.listExpressions.map Expression.entry = entries calls) ∧
    (∀ e ∈ s.listExpressions, ∃ text stamp stamps now, .submit text stamp stamps now ∈ calls ∧
      e.entry = ⟨⟨stamp.uuid⟩, text, stamp.time⟩ ∧
      match Formula.parse text with
      | .error _ => e.status = .failed ∧ s.tasksOf e.id = [] ∧ e.taskIds = []
      | .ok f => (s.tasksOf e.id).map Task.id = e.taskIds ∧
          (s.tasksOf e.id).map Task.blueprint = (f.plan times e.id stamps).map Task.blueprint) ∧
    ∀ i t, s.tasks.get? i = some t → ∃ e ∈ s.listExpressions, ∀ e' ∈ s.listExpressions,
      (e'.id = t.owner ↔ e' = e) ∧ (i ∈ e'.taskIds ↔ e' = e) := by
  intro s
  have hs : s.Sound _ := sound_run times lease hd
  refine ⟨perm_listExpressions times lease hd, listExpressions_eq times lease hd, fun e he =>
    ?_, fun i t ht => ?_⟩
  · obtain ⟨text, stamp, stamps, now, hc, hentry⟩ := exists_submit times lease hd he
    refine ⟨text, stamp, stamps, now, hc, hentry, ?_⟩
    have hid : e.id = ⟨stamp.uuid⟩ := congrArg Entry.id hentry
    have htext : e.text = text := congrArg Entry.text hentry
    have he := hs.mem_listExpressions.1 he
    split
    · rename_i cause hp
      rcases hs.filed he with hr | ⟨f, stamps', ha⟩
      · exact ⟨hr.status, hr.tasks, hr.taskIds⟩
      · rw [← htext, ha.parse] at hp
        cases hp
    · rename_i f hp
      obtain ⟨earlier, later, rfl⟩ := List.append_of_mem hc
      have hholds := (recorded_run times lease hp hd).2.holds
      rw [← hid] at hholds
      refine ⟨?_, hholds⟩
      rw [hs.taskIds_eq he, Store.tasksOf, hs.table.indexed.ids_ofOwner]
  · obtain ⟨e, he⟩ := hs.owner ht
    have hid := hs.id_eq he
    refine ⟨e, Store.mem_listExpressions.2 ⟨_, he⟩, fun e' he' => ?_⟩
    have he' := hs.mem_listExpressions.1 he'
    have hsame : e'.id = t.owner ↔ e' = e := by
      constructor
      · intro ho
        rw [ho, he] at he'
        exact (Option.some.inj he').symm
      · rintro rfl
        exact hid
    refine ⟨hsame, ?_⟩
    rw [hs.taskIds_eq he', hs.table.indexed.mem_idsOf, ← hsame]
    constructor
    · rintro ⟨u, hu, ho⟩
      cases ht.symm.trans hu
      exact ho.symm
    · exact fun ho => ⟨t, ht, ho.symm⟩

/-- One text out of three cannot be read, and a task of the first formula is reported twice. -/
theorem keeps_submissions_of_three_texts :
    let s :=
      ((initial .instant none).run [.submitText "1+2*3" 0, .submitText "2+" 10,
        .nextTask (Evaluation.clock 11)
      (Evaluation.clock 12), .report (Id.ofNat 4) (.completed 7.0) (Evaluation.clock 13),
      .submitText "8/4" 20,
      .report (Id.ofNat 4) (.failed "late") (Evaluation.clock 21)]).store
    s.listExpressions.map Expression.text = ["1+2*3", "2+", "8/4"] ∧
      ∃ e ∈ s.listExpressions, ∀ e' ∈ s.listExpressions, Id.ofNat 4 ∈ e'.taskIds ↔ e' = e := by
  intro s
  obtain ⟨-, hlist, -, howner⟩ := @keeps_submissions .instant none [.submitText "1+2*3" 0,
    .submitText "2+" 10, .nextTask (Evaluation.clock 11) (Evaluation.clock 12),
    .report (Id.ofNat 4) (.completed 7.0) (Evaluation.clock 13), .submitText "8/4" 20,
    .report (Id.ofNat 4) (.failed "late") (Evaluation.clock 21)] (by decide)
  constructor
  · have htexts := congrArg (List.map Entry.text) (hlist (by decide))
    rw [List.map_map] at htexts
    exact htexts
  · have hstored : (s.tasks.get? (Id.ofNat 4)).isSome := by decide
    obtain ⟨t, ht⟩ := Option.isSome_iff_exists.1 hstored
    obtain ⟨e, he, hall⟩ := howner _ t ht
    exact ⟨e, he, fun e' he' => (hall e' he').2⟩

end Coordinator

end Reckoner
