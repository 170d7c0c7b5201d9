import TapeMachine.Endpoint.Channel

/-!
# Delivery

What a channel does with its bytes and its endpoints, one law for each operation. A sink takes bytes
from the front of what it is offered and keeps them in order, and the log tells how many
(`deliver_wrote`). So the bytes that were taken, and after them those that are pending, are the
bytes that were pending before and the byte that was written (`Channel.Goes`), whether an operation
fails or not.
-/

namespace TapeMachine

namespace Call

/-- An attempt to read, whatever came of it. -/
def isRead : Call → Bool
  | read _ | readFailed | readInterrupted => true
  | _ => false

def isWrite : Call → Bool
  | wrote _ | writeFailed | writeInterrupted => true
  | _ => false

/-- How many bytes the sink took. -/
def taken : Call → Nat
  | wrote count => count
  | _ => 0

def takenIn : List Call → Nat
  | [] => 0
  | call :: calls => call.taken + takenIn calls

@[simp]
theorem takenIn_nil : takenIn [] = 0 := rfl

@[simp]
theorem takenIn_cons (call : Call) (calls : List Call) :
    takenIn (call :: calls) = call.taken + takenIn calls := rfl

@[simp]
theorem takenIn_append : ∀ a b : List Call, takenIn (a ++ b) = takenIn a + takenIn b
  | [], b => (Nat.zero_add _).symm
  | call :: a, b => by
    rw [List.cons_append, takenIn_cons, takenIn_cons, takenIn_append a b, Nat.add_assoc]

theorem not_isRead_of_isWrite {call : Call} (h : call.isWrite) : ¬ call.isRead := by
  cases call <;> simp_all [isRead, isWrite]

/-- Attempts that were interrupted, and the one that was not. -/
theorem isRead_of_mem_attempts {n : Nat} {last call : Call} (h : last.isRead)
    (hc : call ∈ List.replicate n .readInterrupted ++ [last]) : call.isRead := by
  rcases List.mem_append.1 hc with hc | hc
  · rw [List.eq_of_mem_replicate hc]
    rfl
  · rwa [List.mem_singleton.1 hc]

theorem takenIn_of_isRead : ∀ {calls : List Call}, (∀ call ∈ calls, call.isRead) →
    takenIn calls = 0
  | [], _ => rfl
  | call :: calls, h => by
    have hcall : call.taken = 0 := by
      have := h call List.mem_cons_self
      cases call <;> simp_all [isRead, taken]
    rw [takenIn_cons, hcall, takenIn_of_isRead fun c hc => h c (List.mem_cons_of_mem _ hc)]

end Call

namespace Sink

def Answer.count : Answer → Nat
  | took count => count
  | interrupted | failure _ => 0

theorem cut_isPrefix (limit : Option Nat) (data : List UInt8) : cut limit data <+: data := by
  unfold cut
  split
  · exact List.take_prefix _ _
  · exact List.prefix_refl _

theorem accepted_take (s : Sink) (most : Option Nat) (data : List UInt8) :
    (s.take most data).2.accepted.toList
        = s.accepted.toList ++ data.take (s.take most data).1.count
      ∧ (s.take most data).1.count ≤ data.length := by
  have hpre : cut most (cut s.room data) <+: data :=
    (cut_isPrefix most _).trans (cut_isPrefix s.room data)
  unfold take
  split
  · simp [Answer.count]
  · refine ⟨?_, hpre.length_le⟩
    simp only [Answer.count, ← List.prefix_iff_eq_take.1 hpre]
    simp

/-- A sink takes a front part of what it is offered. -/
theorem accepted_write (s : Sink) (data : List UInt8) :
    (s.write data).2.accepted.toList
        = s.accepted.toList ++ data.take (s.write data).1.count
      ∧ (s.write data).1.count ≤ data.length := by
  unfold write
  split
  · simp [Answer.count]
  · simp [Answer.count]
  · exact accepted_take _ _ data
  · exact accepted_take _ _ data

theorem accepted_flush (s : Sink) : s.flush.2.accepted = s.accepted := by
  unfold flush
  split <;> rfl

end Sink

namespace Endpoints

/-- Write calls, in which the sink took `taken`. -/
structure Wrote (e e' : Endpoints) (taken : List UInt8) (calls : List Call) : Prop where
  reader : e'.reader = e.reader
  accepted : e'.sink.accepted.toList = e.sink.accepted.toList ++ taken
  log : e'.log.toList = e.log.toList ++ calls
  writes : ∀ call ∈ calls, call.isWrite
  count : Call.takenIn calls = taken.length

theorem Wrote.refl (e : Endpoints) : Wrote e e [] [] := by
  constructor <;> simp

theorem Wrote.cons {e e' e'' : Endpoints} {taken taken' : List UInt8} {call : Call}
    {calls : List Call} (h : Wrote e e' taken [call]) (h' : Wrote e' e'' taken' calls) :
    Wrote e e'' (taken ++ taken') (call :: calls) where
  reader := h'.reader.trans h.reader
  accepted := by rw [h'.accepted, h.accepted, List.append_assoc]
  log := by rw [h'.log, h.log, List.append_assoc, List.singleton_append]
  writes := by
    intro c hc
    rcases List.mem_cons.1 hc with rfl | hc
    · exact h.writes c List.mem_cons_self
    · exact h'.writes c hc
  count := by
    have := h.count
    have := h'.count
    simp only [Call.takenIn_cons, Call.takenIn_nil, List.length_append] at *
    omega

theorem Wrote.one {e : Endpoints} {data : List UInt8} {answer : Sink.Answer} {sink : Sink}
    (call : Call) (h : e.sink.write data = (answer, sink)) (hw : call.isWrite)
    (hc : call.taken = answer.count) :
    Wrote e { e with sink, log := e.log.push call } (data.take answer.count) [call] := by
  obtain ⟨ha, hle⟩ := e.sink.accepted_write data
  rw [h] at ha hle
  refine ⟨rfl, ha, by simp, by simpa using hw, ?_⟩
  rw [Call.takenIn_cons, Call.takenIn_nil, hc, List.length_take]
  exact (Nat.min_eq_left hle).symm

/-- What is delivered is taken from the front, and all of it if nothing fails. -/
theorem deliver_wrote (stalled : IoFailure) (e : Endpoints) (data : List UInt8) :
    ∃ taken calls, Wrote e (e.deliver stalled data).ends taken calls
      ∧ data = taken ++ (e.deliver stalled data).left
      ∧ ((e.deliver stalled data).failure = none → (e.deliver stalled data).left = []) := by
  fun_induction Endpoints.deliver stalled e data with
  | case1 e data hdata => exact ⟨[], [], .refl e, rfl, fun _ => List.isEmpty_iff.1 hdata⟩
  | case2 e data hdata sink h ih =>
    obtain ⟨taken, calls, hw, hd, hf⟩ := ih
    exact ⟨_, _, (Wrote.one .writeInterrupted h rfl rfl).cons hw, hd, hf⟩
  | case3 e data hdata f sink h =>
    exact ⟨_, _, Wrote.one .writeFailed h rfl rfl, rfl, by simp⟩
  | case4 e data hdata sink h =>
    exact ⟨_, _, Wrote.one (.wrote 0) h rfl rfl, rfl, by simp⟩
  | case5 e data hdata k sink h ih =>
    obtain ⟨taken, calls, hw, hd, hf⟩ := ih
    refine ⟨_, _, (Wrote.one (.wrote (k + 1)) h rfl rfl).cons hw, ?_, hf⟩
    rw [List.append_assoc, ← hd]
    exact (List.take_append_drop _ _).symm

end Endpoints

/-- Every attempt but the last one was interrupted. -/
theorem Reader.log_await (script : List Arrival) (log : Array Call) :
    ∃ n call, call.isRead ∧ (Reader.await script log).2.2.toList
      = log.toList ++ (List.replicate n .readInterrupted ++ [call]) := by
  fun_induction Reader.await script log with
  | case1 log => exact ⟨0, .read 0, rfl, by simp⟩
  | case2 rest log ih => exact ih
  | case3 b data rest log => exact ⟨0, .read 1, rfl, by simp⟩
  | case4 rest log => exact ⟨0, .read 0, rfl, by simp⟩
  | case5 f rest log h ih =>
    obtain ⟨n, call, hc, hl⟩ := ih
    exact ⟨n + 1, call, hc, by simp [hl, List.replicate_succ]⟩
  | case6 f rest log h => exact ⟨0, .readFailed, rfl, by simp⟩

namespace Channel

def Result.channel {α : Type} : Result α → Channel
  | .ok _ c | .error _ c => c

@[simp]
theorem Result.channel_ok {α : Type} (a : α) (c : Channel) :
    Result.channel (.ok a c : Result α) = c := rfl

@[simp]
theorem Result.channel_error {α : Type} (f : IoFailure) (c : Channel) :
    Result.channel (.error f c : Result α) = c := rfl

/-- From `c` to `c'` by `calls`, with `out` written on the way: what the sink took of it, and after
that what is pending, is what was pending and what was written. -/
structure Goes (c c' : Channel) (calls : List Call) (out : List UInt8) : Prop where
  log : c'.ends.log.toList = c.ends.log.toList ++ calls
  accepted : ∃ taken, c'.ends.sink.accepted.toList = c.ends.sink.accepted.toList ++ taken
    ∧ taken ++ c'.pending.toList = c.pending.toList ++ out
    ∧ Call.takenIn calls = taken.length
  written : c'.bytesWritten = c.bytesWritten + out.length
  room : c.pending.size ≤ capacity → c'.pending.size ≤ capacity

variable {c c' c'' : Channel}

theorem Goes.refl (c : Channel) : Goes c c [] [] :=
  ⟨by simp, ⟨[], by simp⟩, rfl, id⟩

theorem Goes.trans {calls calls' : List Call} {out out' : List UInt8} (h : Goes c c' calls out)
    (h' : Goes c' c'' calls' out') : Goes c c'' (calls ++ calls') (out ++ out') := by
  obtain ⟨t, ha, hp, ht⟩ := h.accepted
  obtain ⟨t', ha', hp', ht'⟩ := h'.accepted
  refine ⟨?_, ⟨t ++ t', ?_, ?_, ?_⟩, ?_, fun hr => h'.room (h.room hr)⟩
  · rw [h'.log, h.log, List.append_assoc]
  · rw [ha', ha, List.append_assoc]
  · rw [List.append_assoc, hp', ← List.append_assoc, hp, List.append_assoc]
  · rw [Call.takenIn_append, ht, ht', List.length_append]
  · rw [h'.written, h.written, List.length_append, Nat.add_assoc]

/-- Calls by which the sink takes nothing leave the bytes where they are. -/
theorem Goes.of_sink {ends : Endpoints} {calls : List Call} (read : Nat)
    (hl : ends.log.toList = c.ends.log.toList ++ calls)
    (ha : ends.sink.accepted = c.ends.sink.accepted) (ht : Call.takenIn calls = 0) :
    Goes c { c with ends, bytesRead := read } calls [] :=
  ⟨hl, ⟨[], by simp [ha], by simp, ht⟩, rfl, id⟩

theorem writeOut_goes (c : Channel) : ∃ calls, Goes c c.writeOut.channel calls []
    ∧ (∀ call ∈ calls, call.isWrite) ∧ c.writeOut.channel.ends.reader = c.ends.reader := by
  obtain ⟨taken, calls, hw, hd, hf⟩ := c.ends.deliver_wrote stalled c.pending.toList
  have hlen := congrArg List.length hd
  simp only [List.length_append, Array.length_toList] at hlen
  refine ⟨calls, ?_, hw.writes, ?_⟩
  · unfold writeOut
    split
    · rename_i left ends h
      simp only [h, forall_const] at hw hd hf
      exact ⟨hw.log, ⟨taken, hw.accepted, by simp [hd, hf], hw.count⟩, rfl, fun _ => Nat.zero_le _⟩
    · rename_i left f ends h
      simp only [h] at hw hd hlen
      refine ⟨hw.log, ⟨taken, hw.accepted, by simp [hd], hw.count⟩, rfl, fun hr => ?_⟩
      simp only [Result.channel_error, List.size_toArray]
      omega
  · unfold writeOut
    split
    · rename_i left ends h
      rw [h] at hw
      exact hw.reader
    · rename_i left f ends h
      rw [h] at hw
      exact hw.reader

theorem pending_of_writeOut (h : c.writeOut = .ok () c') : c'.pending = #[] := by
  unfold writeOut at h
  split at h <;> cases h
  rfl

theorem goes_flushSink (c : Channel) :
    Goes c { c with ends := c.ends.flushSink.2 }
        [if c.ends.flushSink.1 = none then .flushed else .flushFailed] []
      ∧ c.ends.flushSink.2.reader = c.ends.reader := by
  have ha := c.ends.sink.accepted_flush
  unfold Endpoints.flushSink
  split <;> rename_i sink h <;> rw [h] at ha
  · exact ⟨.of_sink c.bytesRead (by simp) ha (by simp [Call.taken]), rfl⟩
  · exact ⟨.of_sink c.bytesRead (by simp) ha (by simp [Call.taken]), rfl⟩

/-- A flush that goes well ends with one of the sink, and leaves nothing pending. -/
theorem flush_ok_goes (h : c.flush = .ok () c') : ∃ calls, Goes c c' (calls ++ [.flushed]) []
    ∧ (∀ call ∈ calls ++ [.flushed], ¬ call.isRead) ∧ c'.ends.reader = c.ends.reader
    ∧ c'.pending = #[] := by
  obtain ⟨calls, hg, hw, hr⟩ := c.writeOut_goes
  unfold flush at h
  split at h
  · cases h
  rename_i c1 h1
  rw [h1] at hg hr
  obtain ⟨hs, hsr⟩ := c1.goes_flushSink
  have hp := pending_of_writeOut h1
  split at h <;> cases h
  rename_i ends hf
  rw [hf] at hs hsr
  refine ⟨calls, hg.trans hs, fun call hc => ?_, hsr.trans hr, hp⟩
  rcases List.mem_append.1 hc with hc | hc
  · exact Call.not_isRead_of_isWrite (hw call hc)
  · rw [List.mem_singleton.1 hc]
    decide

/-- A flush that fails has not read. -/
theorem flush_error_goes {f : IoFailure} (h : c.flush = .error f c') : ∃ calls, Goes c c' calls []
    ∧ (∀ call ∈ calls, ¬ call.isRead) ∧ c'.ends.reader = c.ends.reader := by
  obtain ⟨calls, hg, hw, hr⟩ := c.writeOut_goes
  unfold flush at h
  split at h
  · rename_i h1
    cases h
    rw [h1] at hg hr
    exact ⟨calls, hg, fun call hc => Call.not_isRead_of_isWrite (hw call hc), hr⟩
  rename_i c1 h1
  rw [h1] at hg hr
  obtain ⟨hs, hsr⟩ := c1.goes_flushSink
  split at h <;> cases h
  rename_i ends hf
  rw [hf] at hs hsr
  refine ⟨_, hg.trans hs, fun call hc => ?_, hsr.trans hr⟩
  rcases List.mem_append.1 hc with hc | hc
  · exact Call.not_isRead_of_isWrite (hw call hc)
  · rw [List.mem_singleton.1 hc, if_neg (Option.some_ne_none _)]
    decide

theorem goes_push (c : Channel) (b : UInt8) (h : c.pending.size < capacity) :
    Goes c (c.push b) [] [b] :=
  ⟨by simp [push], ⟨[], by simp [push]⟩, rfl, fun _ => by
    simpa [push] using Nat.succ_le_of_lt h⟩

/-- A byte that was written is pending at first. -/
theorem writeByte_ok_goes {b : UInt8} (h : c.writeByte b = .ok () c') : ∃ calls, Goes c c' calls [b]
    ∧ (∀ call ∈ calls, call.isWrite) ∧ 0 < c'.pending.size := by
  unfold writeByte at h
  split at h
  · rename_i hlt
    cases h
    exact ⟨[], c.goes_push b hlt, by simp, by simp [push]⟩
  · obtain ⟨calls, hg, hw, -⟩ := c.writeOut_goes
    split at h <;> cases h
    rename_i c1 h1
    rw [h1] at hg
    have hp := pending_of_writeOut h1
    have hpush := c1.goes_push b (by simp [hp, capacity])
    exact ⟨calls, by simpa using hg.trans hpush, hw, by simp [push]⟩

theorem writeByte_error_goes {b : UInt8} {f : IoFailure} (h : c.writeByte b = .error f c') :
    ∃ calls, Goes c c' calls [] ∧ ∀ call ∈ calls, call.isWrite := by
  unfold writeByte at h
  split at h
  · cases h
  · obtain ⟨calls, hg, hw, -⟩ := c.writeOut_goes
    split at h <;> cases h
    rename_i h1
    rw [h1] at hg
    exact ⟨calls, hg, hw⟩

theorem readByte_of_flush_error {f : IoFailure} (h : c.flush = .error f c') :
    c.readByte = .error f c' := by
  rw [readByte, h]

theorem channel_readByte (h : c.flush = .ok () c') : ∃ read, c.readByte.channel
    = { c' with ends := c'.ends.awaitByte.2, bytesRead := read } := by
  simp only [readByte, h]
  split <;> rename_i ends ha <;> rw [ha]
  · exact ⟨c'.bytesRead + 1, rfl⟩
  · exact ⟨c'.bytesRead, rfl⟩
  · exact ⟨c'.bytesRead, rfl⟩

/-- After its flush, an attempt to read a byte leaves the sink alone. -/
theorem readByte_goes (h : c.flush = .ok () c') : ∃ n call, call.isRead
    ∧ Goes c' c.readByte.channel (List.replicate n .readInterrupted ++ [call]) [] := by
  obtain ⟨n, call, hc, hl⟩ := Reader.log_await c'.ends.reader.script c'.ends.log
  obtain ⟨read, hread⟩ := channel_readByte h
  rw [hread]
  exact ⟨n, call, hc, .of_sink read hl rfl
    (Call.takenIn_of_isRead fun _ => Call.isRead_of_mem_attempts hc)⟩

end Channel

end TapeMachine
