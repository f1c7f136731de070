import Lineage.Proofs.Instruction.Faults
import Lineage.Proofs.Store.Table
import Mathlib.Data.List.Induction

/-!
What an execution consumes.

The consuming calls of an execution are those for the operands that it reads, in the order of its
slots. A store is `Consumed` when nothing else has happened to it. An execution that faults has read
the operands in the slots before the failure, and has done nothing else.
-/

namespace Lineage

/-- The history after a consuming call on each of the channels, in order. -/
def Source.consume (src : Source) (history : List Read) (channels : List Nat) : List Read :=
  channels.foldl (fun h c => ⟨c, false, src h c false⟩ :: h) history

@[simp] lemma Source.consume_concat (src : Source) (h : List Read) (cs : List Nat) (c : Nat) :
    src.consume h (cs ++ [c]) = ⟨c, false, src (src.consume h cs) c false⟩ :: src.consume h cs := by
  simp [consume]

def Kind.channel? : Kind → Option Nat
  | .input c => some c
  | _ => none

namespace Store

variable {s t : Store} {id : OperandId} {ids : List OperandId}

def channels (s : Store) (ids : List OperandId) : List Nat :=
  ids.filterMap fun id => (s.operand id).kind.channel?

lemma readAll_concat (s : Store) (ids : List OperandId) (id : OperandId) :
    s.readAll (ids ++ [id]) = ((s.readAll ids).read id).2 := by
  simp [readAll]

/-- The last consuming call on a channel. -/
def lastRead? (s : Store) (c : Nat) : Option Read :=
  s.reads.find? fun r => !r.peek && r.channel == c

/-- The operands have been read, in order, and nothing else has happened: there was one consuming
call for each input channel, which holds the value of its last call, and no node. -/
structure Consumed (s : Store) (ids : List OperandId) (t : Store) : Prop where
  rest : t = { s with operands := t.operands, reads := t.reads }
  size : t.operands.size = s.operands.size
  reads : t.reads = s.source.consume s.reads (s.channels ids)
  input : ∀ {id c}, (s.operand id).kind = .input c → id ∈ ids →
    ∃ v, t.operand id = { s.operand id with value := v, node := none } ∧
      t.lastRead? c = some ⟨c, false, v⟩
  other : ∀ {id}, (s.IsInput id → id ∉ ids) → t.operand id = s.operand id

lemma channel?_of_not_input (h : ¬ s.IsInput id) : (s.operand id).kind.channel? = none := by
  cases hk : (s.operand id).kind with
  | input c => exact absurd ⟨c, hk⟩ h
  | register | constant | memory | output => rfl

lemma lt_of_input {c : Nat} (h : (s.operand id).kind = .input c) : id < s.operands.size :=
  lt_of_operand_ne fun h' => by rw [h'] at h; cases h

lemma readAll_steady (s : Store) (ids : List OperandId) : s.Steady (s.readAll ids) := by
  induction ids generalizing s with
  | nil => exact .refl s
  | cons id ids ih => exact (s.read_steady id).trans (ih _)

/-- Each channel has one operand, so reading one of them changes no other. -/
lemma consumed_readAll (hl : s.Laid) (ids : List OperandId) : s.Consumed ids (s.readAll ids) := by
  induction ids using List.reverseRecOn with
  | nil => exact ⟨rfl, rfl, rfl, fun _ h => absurd h List.not_mem_nil, fun _ => rfl⟩
  | append_singleton ids id ih =>
    have hsteady := s.readAll_steady ids
    rw [readAll_concat]
    generalize s.readAll ids = t at ih hsteady ⊢
    by_cases hid : s.IsInput id
    · obtain ⟨c, hc⟩ := hid
      have hc' : (t.operand id).kind = .input c := (hsteady.kind id).trans hc
      have hchannels : s.channels (ids ++ [id]) = s.channels ids ++ [c] := by
        simp [channels, hc, Kind.channel?]
      rw [read_input hc']
      have hop : ∀ j, ((t.consult c false).2.modify id fun o =>
          { o with value := t.source t.reads c false, node := none }).operand j =
          if id = j ∧ j < t.operands.size then
            { t.operand j with value := t.source t.reads c false, node := none }
          else t.operand j := operand_modify (t.consult c false).2 id _
      refine ⟨?_, (size_modify ..).trans ih.size, ?_, fun {j c'} hj hmem => ?_, fun {j} hj => ?_⟩
      · rw [ih.rest]
        rfl
      · rw [hchannels, Source.consume_concat, ← ih.reads, ← hsteady.source]
        rfl
      · by_cases hij : id = j
        · -- the operand that was read last holds what its channel has just given
          subst hij
          rw [hc] at hj
          cases hj
          refine ⟨_, ?_, List.find?_cons_of_pos (by simp)⟩
          rw [hop, if_pos ⟨rfl, lt_of_input hc'⟩]
          by_cases hin : id ∈ ids
          · obtain ⟨v, hv, -⟩ := ih.input hc hin
            rw [hv]
          · rw [ih.other fun _ => hin]
        · -- any other channel has an operand of its own, which stays as it was
          have hne : c ≠ c' := by
            rintro rfl
            refine hij (hl.eq_of_kind (lt_of_input hj) (lt_of_input hc) ?_ (hc.trans hj.symm))
            rw [hj]
            rfl
          obtain ⟨v, hv, hlast⟩ := ih.input hj (by simpa [Ne.symm hij] using hmem)
          refine ⟨v, ?_, ?_⟩
          · rw [hop, if_neg fun h => hij h.1, hv]
          · rw [← hlast]
            exact List.find?_cons_of_neg (by simpa using hne)
      · rw [hop, if_neg, ih.other fun hin hmem => hj hin (List.mem_append_left _ hmem)]
        rintro ⟨rfl, -⟩
        exact hj ⟨c, hc⟩ (by simp)
    · have hid' : ¬ t.IsInput id := hsteady.isInput.not.2 hid
      have hchannels : s.channels (ids ++ [id]) = s.channels ids := by
        simp [channels, channel?_of_not_input hid]
      rw [read_of_not_input hid']
      refine ⟨ih.rest, ih.size, by rw [hchannels, ih.reads], fun {j c'} hj hmem => ?_,
        fun hj => ih.other fun hin hmem => hj hin (List.mem_append_left _ hmem)⟩
      refine ih.input hj ?_
      rcases List.mem_append.1 hmem with hmem | hmem
      · exact hmem
      · rw [List.mem_singleton.1 hmem] at hj
        exact absurd ⟨c', hj⟩ hid

namespace Consumed

lemma pcValue (h : s.Consumed ids t) (hl : s.Laid) : t.pcValue = s.pcValue := by
  rw [Store.pcValue, h.other fun hin => absurd hin hl.pc_not_input, Store.pcValue]

end Consumed

end Store

namespace Instruction

open Exec

variable {i : Instruction} {s t : Store} {e : Effect} {f : Fault}

/-- The operands that an instruction has read to find out its effect, which is a jump only if the
condition holds. -/
def readFor (i : Instruction) : Effect → List OperandId
  | .jump _ => i.idsIn [.a, .dst]
  | .write _ _ | .idle | .halt => i.idsIn i.opcode.sources

lemma Reads.readAll (h : i.Reads s e t) (hl : s.Laid) : t = s.readAll (i.readFor e) := by
  cases h with
  | binary hop ha hb => simp [readFor, idsIn, hop, Opcode.sources, Opcode.takes, ha, hb]
  | ldm hop ha _ hcell =>
    rw [← (s.read_steady _).memoryCell] at hcell
    rw [read_cell_eq hl (s.read_steady _) hcell]
    simp [readFor, idsIn, hop, Opcode.sources, Opcode.takes, ha]
  | stm hop ha hdst => simp [readFor, idsIn, hop, Opcode.sources, Opcode.takes, ha, hdst]
  | str hop ha | bisz hop ha | pass hop ha =>
    simp [readFor, idsIn, hop, Opcode.sources, Opcode.takes, ha]
  | jump hop ha hdst => simp [readFor, idsIn, ha, hdst]
  | undef hop | nop hop | unkn hop => simp [readFor, idsIn, hop, Opcode.sources, Opcode.takes]

lemma perform_error_cases (h : perform e s = .error f t) :
    t = s ∧ ∃ target v a, e = .write target v ∧ f = .access a := by
  refine ⟨perform_error h, ?_⟩
  cases e with
  | write target v =>
    rcases bind_error h with h | ⟨_, _, -, h⟩
    · rw [write_eq] at h
      cases hw : s.write target v with
      | ok u => rw [hw] at h; cases h
      | error a => rw [hw] at h; cases h; exact ⟨_, _, a, rfl, rfl⟩
    · cases h
  | jump | idle | halt => cases h

/-- An execution that fails has read what stands before the failure, and done no more. -/
lemma execute_error_reads (hl : s.Laid) (h : i.execute s = .error f t) :
    t = s.readAll (i.readBefore f) := by
  rcases bind_error h with h | ⟨e, u, heff, hperf⟩
  · exact (stops_of_effect h).reads hl
  · obtain ⟨rfl, target, v, a, rfl, rfl⟩ := perform_error_cases hperf
    exact (reads_of_effect heff).readAll hl

end Instruction

end Lineage
