import TapeMachine.Proofs.Exchanges

/-!
# Steady channels

A sink is steady if it never fails, whatever it is offered. Over such a sink no operation of a
channel fails, but for a read whose reader fails. What the channel holds back is as good as
delivered: all that matters of its output is what the sink has taken together with what is pending
(`Channel.output`), and all that matters of its reader is the script, whatever the log.
-/

namespace TapeMachine

namespace Sink

/-- What a sink comes to be by writes and flushes. -/
inductive Becomes : Sink → Sink → Prop
  | refl (s : Sink) : Becomes s s
  | write {s s' : Sink} (data : List UInt8) : Becomes (s.write data).2 s' → Becomes s s'
  | flush {s s' : Sink} : Becomes s.flush.2 s' → Becomes s s'

/-- The sink never fails: its flushes go well, and of whatever it is offered it takes something,
unless it is interrupted. -/
def Steady (s : Sink) : Prop :=
  ∀ s', Becomes s s' → s'.flush.1 = none ∧ ∀ data, data ≠ [] →
    (s'.write data).1 = .interrupted ∨ ∃ k, (s'.write data).1 = .took (k + 1)

namespace Steady

variable {s : Sink}

theorem write (h : s.Steady) (data : List UInt8) : (s.write data).2.Steady :=
  fun s' hs' => h s' (.write data hs')

theorem flush (h : s.Steady) : s.flush.2.Steady := fun s' hs' => h s' (.flush hs')

end Steady

/-- Nothing that is laid down for the sink makes it fail. -/
structure Sound (s : Sink) : Prop where
  turns : ∀ turn ∈ s.turns, turn = .interrupted ∨ ∃ n, turn = .takes (n + 1)
  room : s.room = none
  portion : s.portion ≠ some 0
  flushes : ∀ failure? ∈ s.flushes, failure? = none
  flushFailure : s.flushFailure = none

namespace Sound

variable {s : Sink} {most : Option Nat} {data : List UInt8}

theorem take (h : s.Sound) : (s.take most data).2.Sound := by
  unfold Sink.take
  rw [h.room]
  exact ⟨h.turns, rfl, h.portion, h.flushes, h.flushFailure⟩

theorem took (h : s.Sound) (hm : most ≠ some 0) (hd : data ≠ []) :
    ∃ k, (s.take most data).1 = .took (k + 1) := by
  have hcut : 0 < (cut most data).length := by
    have := List.length_pos_iff.2 hd
    rcases most with _ | _ | n
    · exact this
    · exact absurd rfl hm
    · rw [cut, List.length_take]
      omega
  unfold Sink.take
  rw [h.room]
  exact ⟨_, congrArg Answer.took (Nat.succ_pred_eq_of_pos hcut).symm⟩

theorem write (h : s.Sound) (data : List UInt8) : (s.write data).2.Sound
    ∧ (data ≠ [] → (s.write data).1 = .interrupted ∨ ∃ k, (s.write data).1 = .took (k + 1)) := by
  have hrest : ∀ {turn : Turn} {turns : List Turn}, s.turns = turn :: turns →
      ({ s with turns } : Sink).Sound := fun hs =>
    ⟨fun turn hturn => h.turns turn (by simp [hs, hturn]), h.room, h.portion, h.flushes,
      h.flushFailure⟩
  unfold Sink.write
  split
  · rename_i hs
    exact ⟨hrest hs, fun _ => .inl rfl⟩
  · rename_i hs
    rcases h.turns _ (by rw [hs]; exact List.mem_cons_self) with hturn | ⟨n, hturn⟩ <;> cases hturn
  · rename_i most turns hs
    obtain hturn | ⟨n, hturn⟩ := h.turns (.takes most) (by rw [hs]; exact List.mem_cons_self)
    · cases hturn
    · cases hturn
      exact ⟨(hrest hs).take, fun hd => .inr ((hrest hs).took (by simp) hd)⟩
  · exact ⟨h.take, fun hd => .inr (h.took h.portion hd)⟩

theorem flush (h : s.Sound) : s.flush.2.Sound ∧ s.flush.1 = none := by
  unfold Sink.flush
  split
  · rename_i hs
    refine ⟨⟨h.turns, h.room, h.portion, fun f hf => h.flushes f (by simp [hs, hf]),
      h.flushFailure⟩, h.flushes _ (by rw [hs]; exact List.mem_cons_self)⟩
  · exact ⟨h, h.flushFailure⟩

theorem becomes {s' : Sink} (h : s.Sound) (hs : Becomes s s') : s'.Sound := by
  induction hs with
  | refl s => exact h
  | write data _ ih => exact ih (h.write data).1
  | flush _ ih => exact ih h.flush.1

theorem steady (h : s.Sound) : s.Steady := fun _ hs =>
  ⟨(h.becomes hs).flush.2, fun data hd => ((h.becomes hs).write data).2 hd⟩

end Sound

end Sink

/-- A steady sink takes all that is delivered. -/
theorem Endpoints.deliver_steady (stalled : IoFailure) (e : Endpoints) (data : List UInt8)
    (h : e.sink.Steady) : (e.deliver stalled data).failure = none
      ∧ (e.deliver stalled data).ends.sink.Steady := by
  fun_induction Endpoints.deliver stalled e data with
  | case1 e data hdata => exact ⟨rfl, h⟩
  | case2 e data hdata sink hw ih =>
    have hs := h.write data
    rw [hw] at hs
    exact ih hs
  | case3 e data hdata f sink hw =>
    have ha := (h _ (.refl _)).2 data (by simpa using hdata)
    simp [hw] at ha
  | case4 e data hdata sink hw =>
    have ha := (h _ (.refl _)).2 data (by simpa using hdata)
    simp [hw] at ha
  | case5 e data hdata k sink hw ih =>
    have hs := h.write data
    rw [hw] at hs
    exact ih hs

theorem Endpoints.flushSink_steady (e : Endpoints) (h : e.sink.Steady) :
    ∃ ends, e.flushSink = (none, ends) ∧ ends.sink.Steady := by
  have hok := (h _ (.refl _)).1
  have hs := h.flush
  rcases hf : e.sink.flush with ⟨failure?, sink⟩
  rw [hf] at hok hs
  obtain rfl : failure? = none := hok
  exact ⟨{ e with sink, log := e.log.push .flushed }, by simp only [flushSink, hf], hs⟩

namespace Reader

/-- What a read gives and what it leaves of the script. -/
def next : List Arrival → Answer × List Arrival
  | [] => (.endOfInput, [])
  | .bytes [] :: rest => next rest
  | .bytes (b :: data) :: rest => (.byte b, .bytes data :: rest)
  | .endOfInput :: rest => (.endOfInput, rest)
  | .failure f :: rest => if f.kind = .interrupted then next rest else (.failure f, rest)

theorem await_eq_next (script : List Arrival) (log : Array Call) :
    ∃ log', await script log = ((next script).1, (next script).2, log') := by
  fun_induction await script log with
  | case1 log => exact ⟨_, rfl⟩
  | case2 rest log ih => exact ih
  | case3 b data rest log => exact ⟨_, rfl⟩
  | case4 rest log => exact ⟨_, rfl⟩
  | case5 f rest log hf ih => rwa [next, if_pos hf]
  | case6 f rest log hf => exact ⟨_, by rw [next, if_neg hf]⟩

/-- The script lets no read fail. -/
def Quiet (script : List Arrival) : Prop :=
  ∀ f, .failure f ∈ script → f.kind = .interrupted

theorem Quiet.tail {arrival : Arrival} {rest : List Arrival} (h : Quiet (arrival :: rest)) :
    Quiet rest := fun f hf => h f (List.mem_cons_of_mem _ hf)

/-- Either a read finds its answer before the end of a quiet script, whatever comes after it, or the
script is as good as used up. -/
theorem next_append : ∀ {early : List Arrival}, Quiet early →
    (∃ answer rest, Quiet rest ∧ (∀ f, answer ≠ .failure f) ∧
      ∀ late, next (early ++ late) = (answer, rest ++ late))
    ∨ ∀ late, next (early ++ late) = next late
  | [], _ => .inr fun _ => rfl
  | .bytes [] :: _, h => by
    simp only [List.cons_append, next]
    exact next_append h.tail
  | .bytes (b :: data) :: early, h => by
    refine .inl ⟨.byte b, .bytes data :: early, fun f hf => ?_, nofun, fun _ => rfl⟩
    rcases List.mem_cons.1 hf with hf | hf
    · cases hf
    · exact h.tail f hf
  | .endOfInput :: early, h => .inl ⟨.endOfInput, early, h.tail, nofun, fun _ => rfl⟩
  | .failure f :: early, h => by
    -- in a quiet script a failure is an interruption, and the read is made again
    have hf : f.kind = .interrupted := h f List.mem_cons_self
    simp only [List.cons_append, next, if_pos hf]
    exact next_append h.tail

end Reader

namespace Channel

variable {c c' : Channel}

def Steady (c : Channel) : Prop := c.ends.sink.Steady

/-- What the sink has taken, and after it what is pending. -/
def output (c : Channel) : List UInt8 := c.ends.sink.accepted.toList ++ c.pending.toList

theorem Goes.output_eq {calls : List Call} {out : List UInt8} (h : Goes c c' calls out) :
    c'.output = c.output ++ out := by
  obtain ⟨taken, ha, hp, -⟩ := h.accepted
  rw [output, output, ha, List.append_assoc, hp, List.append_assoc]

theorem Goes.output_of_start {ends : Endpoints} {calls : List Call} {out : List UInt8}
    (h : Goes { ends } c calls out) : c.output = ends.sink.accepted.toList ++ out := by
  rw [h.output_eq]
  exact congrArg (· ++ out) (List.append_nil _)

/-- From `c` to `c'` nothing was read, and `out` was written. -/
structure Prints (c c' : Channel) (out : List UInt8) : Prop where
  steady : c'.Steady
  reader : c'.ends.reader = c.ends.reader
  bytesRead : c'.bytesRead = c.bytesRead
  output : c'.output = c.output ++ out

theorem writeOut_prints (h : c.Steady) :
    ∃ c', c.writeOut = .ok () c' ∧ c.Prints c' [] ∧ c'.pending = #[] := by
  obtain ⟨calls, hg, -, hr⟩ := c.writeOut_goes
  obtain ⟨hf, hs⟩ := c.ends.deliver_steady stalled c.pending.toList h
  rcases hd : c.ends.deliver stalled c.pending.toList with ⟨left, failure?, ends⟩
  simp only [hd] at hf hs
  subst hf
  have hw : c.writeOut = .ok () { c with ends, pending := #[] } := by simp only [writeOut, hd]
  rw [hw] at hg hr
  exact ⟨_, hw, ⟨hs, hr, rfl, hg.output_eq⟩, rfl⟩

theorem flush_prints (h : c.Steady) :
    ∃ c', c.flush = .ok () c' ∧ c.Prints c' [] ∧ c'.pending = #[] := by
  obtain ⟨c₁, hw, hp, hnone⟩ := writeOut_prints h
  obtain ⟨ends, hs, hsteady⟩ := c₁.ends.flushSink_steady hp.steady
  have hf : c.flush = .ok () { c₁ with ends } := by simp only [flush, hw, hs]
  obtain ⟨calls, hg, -, hr, -⟩ := flush_ok_goes hf
  exact ⟨_, hf, ⟨hsteady, hr, hp.bytesRead, hg.output_eq⟩, hnone⟩

theorem writeByte_prints (h : c.Steady) (b : UInt8) :
    ∃ c', c.writeByte b = .ok () c' ∧ c.Prints c' [b] := by
  by_cases hroom : c.pending.size < capacity
  · exact ⟨c.push b, if_pos hroom, h, rfl, rfl, (c.goes_push b hroom).output_eq⟩
  · obtain ⟨c₁, hw, hp, hnone⟩ := writeOut_prints h
    -- what was pending is with the sink, so the output is the same but for the new byte
    have hpush := (c₁.goes_push b (by simp [hnone, capacity])).output_eq
    rw [hp.output, List.append_nil] at hpush
    exact ⟨c₁.push b, by rw [writeByte, if_neg hroom, hw],
      hp.steady, hp.reader, hp.bytesRead, hpush⟩

/-- What a read makes of the answer of the reader. -/
def receive (c : Channel) : Reader.Answer → Result UInt8
  | .byte b => .ok b { c with bytesRead := c.bytesRead + 1 }
  | .endOfInput => .ok endOfInputByte c
  | .failure f => .error f c

/-- From `c` to `c'` all output was delivered, and the reader was asked once. -/
structure Awaits (c c' : Channel) : Prop where
  steady : c'.Steady
  script : c'.ends.reader.script = (Reader.next c.ends.reader.script).2
  bytesRead : c'.bytesRead = c.bytesRead
  output : c'.output = c.output
  pending : c'.pending = #[]

theorem readByte_awaits (h : c.Steady) :
    ∃ c', c.Awaits c' ∧ c.readByte = c'.receive (Reader.next c.ends.reader.script).1 := by
  obtain ⟨c₁, hf, hp, hnone⟩ := flush_prints h
  obtain ⟨log, hn⟩ := Reader.await_eq_next c₁.ends.reader.script c₁.ends.log
  rw [← hp.reader]
  refine ⟨{ c₁ with ends := ⟨⟨(Reader.next c₁.ends.reader.script).2⟩, c₁.ends.sink, log⟩ },
    ⟨hp.steady, by rw [← hp.reader], hp.bytesRead, ?_, hnone⟩, ?_⟩
  · exact hp.output.trans (List.append_nil _)
  · simp only [readByte, hf, Endpoints.awaitByte, hn]
    rcases (Reader.next c₁.ends.reader.script).1 with b | _ | f <;> rfl

/-- A steady channel is closed with all of its output delivered. -/
theorem accepted_close (h : c.Steady) : c.close.sink.accepted.toList = c.output := by
  obtain ⟨c', hw, hp, hnone⟩ := writeOut_prints h
  have hout := hp.output
  rw [List.append_nil, output, hnone, List.append_nil] at hout
  simpa only [close, hw] using hout

end Channel

end TapeMachine
