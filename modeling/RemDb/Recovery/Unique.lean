import RemDb.Table.Unique
import RemDb.Recovery.Replay

namespace RemDb
open RemDb.Lib RemDb.Wal

namespace MemoryTable

def touches (slot : Nat) (item : VariableSizeLogItem) : Bool :=
  decide (item.header.record_id.toNat = slot) &&
    (item.header.op_type = .insert || item.header.op_type = .update || item.header.op_type = .delete)

def lastWriter (items : List VariableSizeLogItem) (slot : Nat) : Option UInt32 :=
  ((items.filter (touches slot)).getLast?).map (·.header.tx_id)

section Writers
variable {table : MemoryTable} {slot : Nat}

theorem lastWriter_touch {items : List VariableSizeLogItem} {item : VariableSizeLogItem}
    (here : touches slot item = true) : lastWriter (items ++ [item]) slot = some item.header.tx_id := by
  simp [lastWriter,List.filter_append,here]

theorem lastWriter_skip {items : List VariableSizeLogItem} {item : VariableSizeLogItem}
    (elsewhere : touches slot item = false) : lastWriter (items ++ [item]) slot = lastWriter items slot := by
  simp [lastWriter,List.filter_append,elsewhere]

theorem redoMaxPk_status (table : MemoryTable) (record : Bytes) : (table.redoMaxPk record).status = table.status := by
  obtain ⟨key,raised⟩ := redoMaxPk_only table record
  rw [raised]

theorem redoMaxPk_tdef (table : MemoryTable) (record : Bytes) : (table.redoMaxPk record).tdef = table.tdef := by
  obtain ⟨key,raised⟩ := redoMaxPk_only table record
  rw [raised]

-- Each used slot carries the transaction of the last item for it, and no mark
-- of a deletion.
def Stamped (table : MemoryTable) (items : List VariableSizeLogItem) : Prop :=
  ∀ slot, table.used slot = true →
    lastWriter items slot = some (table.status slot).create_tx_id ∧ (table.status slot).delete_tx_id = 0

-- An item that leaves a header behind which is unused, or stamped by it.
theorem Stamped.assign {items : List VariableSizeLogItem} {item : VariableSizeLogItem} {after : MemoryTable}
    {header : RecordHeader} (stamped : Stamped table items) (here : touches slot item = true)
    (written : after.status = assign table.status slot header)
    (own : header.status = .used → header.create_tx_id = item.header.tx_id ∧ header.delete_tx_id = 0) :
    Stamped after (items ++ [item]) := by
  intro each used
  have busy : (after.status each).status = .used := of_decide_eq_true used
  rw [written] at busy ⊢
  by_cases same : each = slot
  · subst each
    rw [assign_same] at busy ⊢
    obtain ⟨creator,deleted⟩ := own busy
    rw [lastWriter_touch here,creator]
    exact ⟨rfl,deleted⟩
  · rw [assign_other _ same] at busy ⊢
    have elsewhere : touches each item = false := by
      have record := (Bool.and_eq_true_iff.mp here).1
      have different : ¬item.header.record_id.toNat = each := fun equal =>
        same (equal.symm.trans (of_decide_eq_true record))
      rw [touches,decide_eq_false different,Bool.false_and]
    rw [lastWriter_skip elsewhere]
    exact stamped each (decide_eq_true busy)

theorem Stamped.idle {items : List VariableSizeLogItem} {item : VariableSizeLogItem} (stamped : Stamped table items)
    (unused : ∀ each, touches each item = true → table.used each = false) : Stamped table (items ++ [item]) := by
  intro each used
  have elsewhere : touches each item = false := by
    by_contra here
    rw [Bool.not_eq_false] at here
    rw [unused each here] at used
    cases used
  rw [lastWriter_skip elsewhere]
  exact stamped each used

theorem touches_op {item : VariableSizeLogItem} (record : item.header.record_id.toNat = slot)
    (operation : item.header.op_type = .insert ∨ item.header.op_type = .update ∨ item.header.op_type = .delete) :
    touches slot item = true := by
  rw [touches,decide_eq_true record,Bool.true_and]
  rcases operation with insert | update | delete
  · rw [insert]
    rfl
  · rw [update]
    rfl
  · rw [delete]
    rfl

theorem redo_stamped {items : List VariableSizeLogItem} (stamped : Stamped table items) (item : VariableSizeLogItem) :
    Stamped (table.redo item) (items ++ [item]) ∧ (table.redo item).tdef = table.tdef := by
  have only : ∀ each, touches each item = true → item.header.record_id.toNat = each := fun each here =>
    of_decide_eq_true (Bool.and_eq_true_iff.mp here).1
  unfold redo
  split
  · rename_i insert
    have here := touches_op rfl (.inl insert)
    unfold redoInsert
    dsimp only
    split
    · rename_i used
      refine ⟨stamped.assign here (redoMaxPk_status _ _) ?_,redoMaxPk_tdef _ _⟩
      exact fun _ => ⟨rfl,(stamped _ used).2⟩
    · refine ⟨stamped.assign here (redoMaxPk_status _ _) ?_,redoMaxPk_tdef _ _⟩
      exact fun _ => ⟨rfl,rfl⟩
  · rename_i delete
    have here := touches_op rfl (.inr (.inr delete))
    unfold redoDelete
    split
    · obtain ⟨tdef,_,status⟩ := release_parts table item.header.record_id.toNat
      refine ⟨stamped.assign here status ?_,tdef⟩
      exact fun busy => nomatch busy
    · rename_i unused
      refine ⟨stamped.idle fun each there => ?_,rfl⟩
      rw [← only each there]
      exact Bool.eq_false_iff.mpr unused
  · rename_i update
    have here := touches_op rfl (.inr (.inl update))
    unfold redoUpdate
    split
    · rename_i used
      refine ⟨stamped.assign here rfl ?_,rfl⟩
      exact fun _ => ⟨rfl,(stamped _ used).2⟩
    · rename_i unused
      refine ⟨stamped.idle fun each there => ?_,rfl⟩
      rw [← only each there]
      exact Bool.eq_false_iff.mpr unused
  · rename_i insert delete update
    refine ⟨stamped.idle fun each there => ?_,rfl⟩
    have operation := (Bool.and_eq_true_iff.mp there).2
    simp only [Bool.or_eq_true,decide_eq_true_eq] at operation
    rcases operation with (inserts | updates) | deletes
    · exact absurd inserts insert
    · exact absurd updates update
    · exact absurd deletes delete

theorem replay_stamped (items : List VariableSizeLogItem) (fresh : ∀ slot, table.used slot = false) :
    Stamped (table.replay items) items ∧ (table.replay items).tdef = table.tdef := by
  induction items using List.reverseRecOn with
  | nil =>
    refine ⟨fun slot used => ?_,rfl⟩
    rw [replay,List.foldl_nil,fresh slot] at used
    cases used
  | append_singleton items item ih =>
    rw [replay,List.foldl_append]
    obtain ⟨stamped,tdef⟩ := redo_stamped ih.1 item
    exact ⟨stamped,tdef.trans ih.2⟩

end Writers

theorem stamped_visible {create newest : UInt32} : isVisible create 0 newest = true ↔ create ≤ newest := by
  unfold isVisible
  by_cases own : create = newest
  · rw [if_pos own,own]
    exact ⟨fun _ => UInt32.le_refl _,fun _ => rfl⟩
  · rw [if_neg own,if_neg (fun deleted => absurd deleted.1 (by decide)),decide_eq_true_eq]
    exact ⟨UInt32.le_of_lt,fun below => UInt32.lt_of_le_of_ne below own⟩

theorem insert_duplicate_iff (table : MemoryTable) (tx : TransactionManager) (now : UInt64) (data : Bytes) :
    (table.insert tx now data).1 = .error .duplicateKey ↔
      table.validate tx (recordImage table.tdef.record_size data) none = .error .duplicateKey := by
  unfold insert
  cases checked : table.validate tx (recordImage table.tdef.record_size data) none with
  | error failure => simp only [checked,Except.error.injEq]
  | ok _ =>
    simp only [checked,reduceCtorEq,iff_false]
    cases found : table.takeSlot with
    | error failure =>
      intro duplicate
      cases duplicate
      unfold takeSlot at found
      split at found
      · split at found
        · split at found <;> cases found
        · cases found
      · split at found <;> cases found
    | ok taken =>
      intro duplicate
      cases duplicate

-- After recovery a record is refused as a duplicate exactly when a record that
-- conflicts with it was last written by a transaction whose number the new
-- counter has reached.
theorem recovered_key_refused_iff (tdef : TableDef) (zeroed : Memory) (skipStatusInit : Bool) (copy : MemoryTable)
    (cleared : ∀ slot, (zeroed slot).1.status = .free)
    (recreated : newWithOptions tdef (some zeroed) skipStatusInit = .ok copy) (items : List VariableSizeLogItem)
    (tx : TransactionManager) (now : UInt64) (data : Bytes) :
    let recovered := copy.replay items
    let image := recordImage tdef.record_size data
    (recovered.insert tx now data).1 = .error .duplicateKey ↔
      tdef.fields.findSome? (·.fault image) = none ∧
        ∃ slot, slot < tdef.max_records ∧ (recovered.status slot).status = .used ∧
          (tdef.sameKey image (recovered.records slot) = true ∨
            tdef.sameUnique image (recovered.records slot) = true) ∧
          ∃ writer, lastWriter items slot = some writer ∧ writer ≤ tx.tx_id_counter := by
  intro recovered image
  have start : (∀ slot, copy.used slot = false) ∧ copy.tdef = tdef := by
    unfold newWithOptions at recreated
    split at recreated
    · cases recreated
    · cases recreated
      refine ⟨fun slot => ?_,rfl⟩
      cases skipStatusInit with
      | false => rfl
      | true => simp [used,cleared slot]
  obtain ⟨stamped,same⟩ := replay_stamped items start.1
  have whole : recovered.tdef = tdef := same.trans start.2
  rw [insert_duplicate_iff,validate,whole]
  rw [TableDef.validate_duplicate_iff]
  refine and_congr_right fun _ => exists_congr fun slot => ?_
  constructor
  · rintro ⟨⟨inside,_,used,visible⟩,clash⟩
    obtain ⟨writer,deleted⟩ := stamped slot (decide_eq_true used)
    rw [deleted,stamped_visible] at visible
    exact ⟨inside,used,Bool.or_eq_true_iff.mp clash,_,writer,visible⟩
  · rintro ⟨inside,used,clash,writer,last,reached⟩
    obtain ⟨own,deleted⟩ := stamped slot (decide_eq_true used)
    cases own.symm.trans last
    refine ⟨⟨inside,(Option.some_ne_none slot).symm,used,?_⟩,Bool.or_eq_true_iff.mpr clash⟩
    rw [deleted]
    exact stamped_visible.mpr reached

-- The log of a process that wrote two records in its transaction `tx` and
-- deleted the second.
def writtenBy (tx : UInt32) : List VariableSizeLogItem :=
  [logItem tx .insert 1 0 0 [] [1,7],logItem tx .insert 1 1 0 [] [2,8],logItem tx .delete 1 1 0 [2,8] []]

theorem first_transaction_refused : ∃ copy, newWithOptions keyedDef (some blank) true = .ok copy ∧
    ((copy.replay (writtenBy 1)).insert noTx 0 [1,9]).1 = .error .duplicateKey := by
  refine ⟨_,rfl,?_⟩
  refine (recovered_key_refused_iff keyedDef blank true _ (fun _ => rfl) rfl (writtenBy 1) noTx 0 [1,9]).mpr ?_
  exact ⟨by decide +kernel,0,by decide,by decide +kernel,.inl (by decide +kernel),1,by decide +kernel,by decide⟩

-- The second transaction of the earlier process is not visible to the counter
-- that starts again at one: its key goes in a second time.
theorem second_transaction_duplicated : ∃ copy, newWithOptions keyedDef (some blank) true = .ok copy ∧
    let recovered := copy.replay (writtenBy 2)
    (recovered.status 0).status = .used ∧ keyedDef.sameKey [1,9] (recovered.records 0) = true ∧
      (recovered.insert noTx 0 [1,9]).1 = .ok 1 := by
  refine ⟨_,rfl,?_⟩
  decide +kernel

end MemoryTable
end RemDb
