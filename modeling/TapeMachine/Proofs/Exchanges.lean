import TapeMachine.Proofs.Delivery

/-!
# Exchanges

An exchange is one operation of a channel, with the channel before it. Over any row of exchanges,
whichever of them fail, the sink takes the bytes that were written, each once and in their order;
what it has not taken is pending, and no call hands it a byte whose write has not gone well
(`output_exactly_once`).
-/

namespace TapeMachine.Channel

/-- What a program, or whoever runs it, asks of a channel. -/
inductive Operation where
  | write (b : UInt8)
  | read
  | flush
deriving DecidableEq

def operate (c : Channel) : Operation → Result Unit
  | .write b => c.writeByte b
  | .read =>
    match c.readByte with
    | .ok _ c => .ok () c
    | .error f c => .error f c
  | .flush => c.flush

structure Exchange where
  operation : Operation
  before : Channel

namespace Exchange

variable (x : Exchange)

def result : Result Unit := x.before.operate x.operation

def after : Channel := x.result.channel

/-- The calls on the endpoints that were made. -/
def calls : List Call := x.after.ends.log.toList.drop x.before.ends.log.size

/-- The byte that was written, if it was. -/
def output : List UInt8 :=
  match x.operation, x.result with
  | .write b, .ok _ _ => [b]
  | _, _ => []

end Exchange

def exchanges (c : Channel) : List Operation → List Exchange
  | [] => []
  | op :: ops => ⟨op, c⟩ :: exchanges (Exchange.after ⟨op, c⟩) ops

/-- The channel after all operations, those that fail included. -/
def afterAll (c : Channel) : List Operation → Channel
  | [] => c
  | op :: ops => afterAll (Exchange.after ⟨op, c⟩) ops

theorem afterAll_append : ∀ (ops ops' : List Operation) (c : Channel),
    c.afterAll (ops ++ ops') = (c.afterAll ops).afterAll ops'
  | [], _, _ => rfl
  | _ :: ops, ops', _ => afterAll_append ops ops' _

theorem exchanges_append : ∀ (ops ops' : List Operation) (c : Channel),
    c.exchanges (ops ++ ops') = c.exchanges ops ++ (c.afterAll ops).exchanges ops'
  | [], _, _ => rfl
  | _ :: ops, ops', _ => congrArg (_ :: ·) (exchanges_append ops ops' _)

theorem length_exchanges : ∀ (ops : List Operation) (c : Channel),
    (c.exchanges ops).length = ops.length
  | [], _ => rfl
  | _ :: ops, _ => congrArg (· + 1) (length_exchanges ops _)

theorem channel_operate_read (c : Channel) :
    (c.operate .read).channel = c.readByte.channel := by
  rcases h : c.readByte with ⟨b, c'⟩ | ⟨f, c'⟩ <;> simp only [operate, h] <;> rfl

variable {c c' : Channel}

theorem channel_goes_of_read (c : Channel) : ∃ calls, Goes c c.readByte.channel calls [] := by
  rcases h : c.flush with ⟨_, c'⟩ | ⟨f, c'⟩
  · obtain ⟨calls, hg, -⟩ := flush_ok_goes h
    obtain ⟨n, call, -, hr⟩ := readByte_goes h
    exact ⟨_, hg.trans hr⟩
  · obtain ⟨calls, hg, -⟩ := flush_error_goes h
    rw [readByte_of_flush_error h]
    exact ⟨calls, hg⟩

/-- A flush reads nothing, whether it goes well or not. -/
theorem channel_goes_of_flush (c : Channel) : ∃ calls, Goes c c.flush.channel calls []
    ∧ (∀ call ∈ calls, ¬ call.isRead) ∧ c.flush.channel.ends.reader = c.ends.reader := by
  rcases h : c.flush with ⟨_, c'⟩ | ⟨f, c'⟩
  · obtain ⟨calls, hg, hq, hr, -⟩ := flush_ok_goes h
    exact ⟨_, hg, hq, hr⟩
  · exact flush_error_goes h

namespace Exchange

/-- What is written in an exchange is pending after it, and only an exchange that reads uses the
reader. -/
theorem exists_goes (x : Exchange) : ∃ calls, Goes x.before x.after calls x.output
    ∧ (x.output ≠ [] → 0 < x.after.pending.size)
    ∧ (x.operation ≠ .read → ∀ call ∈ calls, ¬ call.isRead) := by
  obtain ⟨op, c⟩ := x
  cases op with
  | write b =>
    rcases h : c.writeByte b with ⟨_, c'⟩ | ⟨f, c'⟩
    · obtain ⟨calls, hg, hw, hpos⟩ := writeByte_ok_goes h
      simp only [after, output, result, operate, h]
      exact ⟨calls, hg, fun _ => hpos, fun _ call hc => Call.not_isRead_of_isWrite (hw call hc)⟩
    · obtain ⟨calls, hg, hw⟩ := writeByte_error_goes h
      simp only [after, output, result, operate, h]
      exact ⟨calls, hg, fun hne => absurd rfl hne,
        fun _ call hc => Call.not_isRead_of_isWrite (hw call hc)⟩
  | read =>
    obtain ⟨calls, hg⟩ := c.channel_goes_of_read
    rw [← channel_operate_read] at hg
    exact ⟨calls, hg, fun hne => absurd rfl hne, fun hne => absurd rfl hne⟩
  | flush =>
    obtain ⟨calls, hg, hq, -⟩ := c.channel_goes_of_flush
    exact ⟨calls, hg, fun hne => absurd rfl hne, fun _ => hq⟩

theorem calls_of_goes {x : Exchange} {calls : List Call} {out : List UInt8}
    (h : Goes x.before x.after calls out) : x.calls = calls := by
  rw [Exchange.calls, h.log, ← Array.length_toList, List.drop_left]

theorem goes (x : Exchange) : Goes x.before x.after x.calls x.output := by
  obtain ⟨calls, hg, -⟩ := x.exists_goes
  rwa [calls_of_goes hg]

/-- A byte that is written in an exchange is not taken in the same exchange. -/
theorem takenIn_calls_le (x : Exchange) : Call.takenIn x.calls ≤ x.before.pending.size := by
  obtain ⟨calls, hg, hpos, -⟩ := x.exists_goes
  obtain ⟨taken, -, hp, ht⟩ := hg.accepted
  have hlen := congrArg List.length hp
  simp only [List.length_append, Array.length_toList] at hlen
  rw [calls_of_goes hg, ht]
  have hout : x.output.length ≤ 1 := by
    unfold output
    split <;> simp
  rcases ho : x.output with _ | ⟨b, rest⟩
  · rw [ho, List.length_nil] at hlen
    omega
  · have := hpos (by simp [ho])
    omega

end Exchange

theorem goes_exchanges : ∀ (ops : List Operation) (c : Channel), Goes c (c.afterAll ops)
    ((c.exchanges ops).flatMap Exchange.calls) ((c.exchanges ops).flatMap Exchange.output)
  | [], c => .refl c
  | op :: ops, c => (Exchange.goes ⟨op, c⟩).trans (goes_exchanges ops _)

/-- What was exchanged before an exchange leads to the channel that it begins with. -/
theorem goes_before : ∀ {ops : List Operation} {c : Channel} {before after : List Exchange}
    {x : Exchange}, c.exchanges ops = before ++ x :: after →
    Goes c x.before (before.flatMap Exchange.calls) (before.flatMap Exchange.output)
  | [], c, before, after, x, h => by simp [exchanges] at h
  | op :: ops, c, [], after, x, h => by
    obtain ⟨rfl, -⟩ := List.cons.inj h
    exact .refl c
  | op :: ops, c, y :: before, after, x, h => by
    obtain ⟨rfl, htail⟩ := List.cons.inj h
    exact (Exchange.goes ⟨op, c⟩).trans (goes_before htail)

/-- What the sink has taken and what is pending make up what was written. -/
theorem Goes.pending_size {calls : List Call} {out : List UInt8} (h : Goes c c' calls out) :
    Call.takenIn calls + c'.pending.size = c.pending.size + out.length := by
  obtain ⟨taken, -, hp, ht⟩ := h.accepted
  have hlen := congrArg List.length hp
  simp only [List.length_append, Array.length_toList] at hlen
  omega

theorem close_eq (c : Channel) : c.close = c.writeOut.channel.ends := by
  unfold close
  split <;> rename_i h <;> rw [h] <;> rfl

/-- After any operations on a new channel, whichever of them failed: the sink has taken a first part
of the bytes that were written, in their order, and the rest is pending, at most as much as the
buffer holds; the count is right; and the sink was handed no byte before its write had gone well. A
flush that goes well leaves nothing pending, and closing the channel takes nothing but pending
bytes. -/
theorem output_exactly_once (ends : Endpoints) (ops : List Operation) :
    let c : Channel := afterAll { ends } ops
    let xs := exchanges { ends } ops
    let written := xs.flatMap Exchange.output
    (∃ taken, c.ends.sink.accepted.toList = ends.sink.accepted.toList ++ taken
        ∧ taken ++ c.pending.toList = written)
      ∧ c.bytesWritten = written.length
      ∧ c.pending.size ≤ capacity
      ∧ (∀ before x after a b, xs = before ++ x :: after → x.calls = a ++ b →
        Call.takenIn (before.flatMap Exchange.calls ++ a)
          ≤ (before.flatMap Exchange.output).length)
      ∧ (∀ c', c.flush = .ok () c' →
        c'.ends.sink.accepted.toList = ends.sink.accepted.toList ++ written)
      ∧ ∃ taken, c.close.sink.accepted.toList = ends.sink.accepted.toList ++ taken
        ∧ taken <+: written := by
  intro c xs written
  have hg : Goes { ends } c (xs.flatMap Exchange.calls) written := goes_exchanges ops { ends }
  refine ⟨?_, ?_, hg.room (Nat.zero_le _), fun before x after a b hxs hcalls => ?_,
    fun c' hc' => ?_, ?_⟩
  · obtain ⟨taken, ha, hp, -⟩ := hg.accepted
    exact ⟨taken, ha, by simpa using hp⟩
  · simpa using hg.written
  · have hbefore := (goes_before hxs).pending_size
    have hx := x.takenIn_calls_le
    rw [hcalls, Call.takenIn_append] at hx
    rw [Call.takenIn_append]
    simp only [Array.size_empty] at hbefore
    omega
  · obtain ⟨calls, hf, -, -, hnone⟩ := flush_ok_goes hc'
    obtain ⟨taken, ha, hp, -⟩ := (hg.trans hf).accepted
    rw [ha]
    simpa [hnone] using hp
  · obtain ⟨calls, hw, -⟩ := c.writeOut_goes
    obtain ⟨taken, ha, hp, -⟩ := (hg.trans hw).accepted
    rw [close_eq]
    exact ⟨taken, ha, c.writeOut.channel.pending.toList, by simpa using hp⟩

end TapeMachine.Channel
