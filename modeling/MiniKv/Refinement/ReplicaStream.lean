import MiniKv.Refinement.Replay
import MiniKv.Server.Handshake

/-! The stream as a replica reads it: however the bytes arrive, the complete lines are the records
that were sent, and applying them to the replica's store is applying them to its logical map.
-/

namespace MiniKv

variable {store : Store} {env : CallEnv} {record : Record}

/-- The records that `replica_thread_main` applies. -/
def Record.isReplicated : Record → Bool
  | .set _ _ | .delete _ => true
  | _ => false

theorem nextLine_line {line : List UInt8} (noLf : lf ∉ line) (noNul : 0 ∉ line)
    (rest : List UInt8)
    : nextLine (line ++ lf :: rest) = some (line, rest) := by
  induction line with
  | nil => simp [nextLine]
  | cons byte line ih =>
      rw [List.mem_cons, not_or] at noLf noNul
      rw [List.cons_append, nextLine, if_neg (Ne.symm noLf.1), if_neg (Ne.symm noNul.1),
        ih noLf.2 noNul.2]
      rfl

theorem nextLine_torn {bytes : List UInt8} (noLf : lf ∉ bytes) : nextLine bytes = none := by
  induction bytes with
  | nil => rfl
  | cons byte rest ih =>
      rw [List.mem_cons, not_or] at noLf
      rw [nextLine, if_neg (Ne.symm noLf.1), ih noLf.2]
      exact ite_self _

/-- The replica applies a record that is written as one line. -/
theorem replicaApplyLine_body (oneLine : record.OneLine)
    (replicated : record.isReplicated = true)
    : replicaApplyLine store record.body env = applyRecord store record env := by
  cases record with
  | set key value =>
      have cut := @splitAtDelim_field tab key.bytes value.bytes
        (ValidKey.notMem oneLine.valid.key (by decide))
      have isSet : (Command.set.word ++ [tab]).isPrefixOf (Record.set key value).body = true := rfl
      have fields : (Record.set key value).body.drop 4 = key.bytes ++ tab :: value.bytes := rfl
      simp only [replicaApplyLine, isSet, if_true, fields, cut, CString.ofBuffer_self, applyRecord]
  | delete key =>
      have notSet : (Command.set.word ++ [tab]).isPrefixOf (Record.delete key).body = false := rfl
      have isDelete : (Command.delete.word ++ [tab]).isPrefixOf (Record.delete key).body = true :=
        rfl
      have field : (Record.delete key).body.drop 7 = key.bytes ++ [] := rfl
      simp only [replicaApplyLine, notSet, isDelete, Bool.false_eq_true, if_false, if_true, field,
        List.append_nil, CString.ofBuffer_self, applyRecord]
  | _ => contradiction

theorem length_le_encode (records : List Record) : records.length ≤ (encode records).length := by
  induction records with
  | nil => exact Nat.zero_le _
  | cons record rest ih =>
      rw [encode, List.flatMap_cons, ← encode, Record.bytes_eq]
      simp only [List.length_cons, List.length_append, List.length_nil]
      omega

/-- Records that are one line each, and the beginning of a further line: the replica applies the
records and keeps the rest.
-/
theorem applyLines_encode (sound : store.Sound) (clean : env.Clean) {records : List Record}
    (oneLine : ∀ record ∈ records, record.OneLine)
    (replicated : ∀ record ∈ records, record.isReplicated = true) {rest : List UInt8}
    (noLf : lf ∉ rest) {fuel : Nat} (enough : records.length ≤ fuel)
    : ∃ after, applyLines env fuel store (encode records ++ rest) = (after, rest)
        ∧ store.table.Becomes after.table
          (applyRecords store.table.maxCapacity env.now records store.table.logical) := by
  induction records generalizing store fuel with
  | nil =>
      refine ⟨store, ?_, .refl sound.wellFormed⟩
      cases fuel with
      | zero => rfl
      | succ fuel =>
          rw [encode, List.flatMap_nil, List.nil_append, applyLines, nextLine_torn noLf]
  | cons record others ih =>
      obtain ⟨fuel, rfl⟩ : ∃ less, fuel = less + 1 :=
        Nat.exists_eq_add_one_of_ne_zero (by simp only [List.length_cons] at enough; omega)
      have isLine := oneLine record List.mem_cons_self
      have becomes := applyRecord_becomes sound.wellFormed sound.unlimited clean isLine.valid
      obtain ⟨after, applied, later⟩ := @ih (applyRecord store record env)
        ⟨becomes.wellFormed, becomes.maxMemoryBudget.trans sound.unlimited⟩
        (fun other member => oneLine other (List.mem_cons_of_mem _ member))
        (fun other member => replicated other (List.mem_cons_of_mem _ member)) fuel
        (Nat.le_of_succ_le_succ enough)
      refine ⟨after, ?_, ?_⟩
      · have split : encode (record :: others) ++ rest
            = record.body ++ lf :: (encode others ++ rest) := by
          rw [encode, List.flatMap_cons, ← encode, Record.bytes_eq]
          simp
        rw [split, applyLines, nextLine_line isLine.noLf_body isLine.noNul_body]
        simp only [replicaApplyLine_body isLine (replicated record List.mem_cons_self)]
        exact applied
      · rw [becomes.logical, becomes.maxCapacity] at later
        exact becomes.trans later

end MiniKv
