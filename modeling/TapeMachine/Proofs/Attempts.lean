import TapeMachine.Proofs.Exchanges

/-!
# Attempts to read

Attempts to read are made in exchanges that read, and there only after a flush
(`Exchange.guarded_calls`). So by any attempt the sink has taken all that was written before
(`delivered_of_isRead`), and after a flush that failed there is none (`Exchange.read_refused`).
-/

namespace TapeMachine

namespace Call

/-- Each attempt to read comes right after a flush of the sink, or after an attempt that was
interrupted. -/
def Guarded (calls : List Call) : Prop :=
  ∀ a call b, calls = a ++ call :: b → call.isRead →
    a.getLast? = some .flushed ∨ a.getLast? = some .readInterrupted

theorem guarded_of_not_isRead {calls : List Call} (h : ∀ call ∈ calls, ¬ call.isRead) :
    Guarded calls := by
  rintro a call b rfl hr
  exact absurd hr (h call (by simp))

theorem Guarded.append {calls calls' : List Call} (h : Guarded calls) (h' : Guarded calls') :
    Guarded (calls ++ calls') := by
  intro a call b hc hr
  rcases List.append_eq_append_iff.1 hc with ⟨d, rfl, hd⟩ | ⟨d, rfl, hd⟩
  · rcases h' d call b hd hr with hl | hl
    · exact .inl (by simp [hl])
    · exact .inr (by simp [hl])
  · cases d with
    | nil => simpa using h' [] call b hd.symm hr
    | cons call' d =>
      obtain ⟨rfl, -⟩ := List.cons.inj hd
      exact h a call d rfl hr

theorem Guarded.snoc {calls : List Call} (call : Call) (h : Guarded calls)
    (hl : calls.getLast? = some .flushed ∨ calls.getLast? = some .readInterrupted) :
    Guarded (calls ++ [call]) := by
  intro a call' b hc hr
  rcases List.eq_nil_or_concat b with rfl | ⟨b, last, rfl⟩
  · obtain ⟨rfl, -⟩ := List.append_inj' hc rfl
    exact hl
  · rw [List.concat_eq_append, ← List.cons_append, ← List.append_assoc] at hc
    exact h a call' b (List.append_inj' hc rfl).1 hr

/-- Attempts may be made again until one is not interrupted. -/
theorem Guarded.attempts (call : Call) : ∀ (n : Nat) {calls : List Call}, Guarded calls →
    (calls.getLast? = some .flushed ∨ calls.getLast? = some .readInterrupted) →
    Guarded (calls ++ (List.replicate n .readInterrupted ++ [call]))
  | 0, calls, h, hl => h.snoc call hl
  | n + 1, calls, h, hl => by
    have := Guarded.attempts call n (h.snoc .readInterrupted hl) (.inr (by simp))
    simpa [List.replicate_succ] using this

end Call

namespace Channel

variable {c c' : Channel}

theorem Goes.accepted_of_takenIn {calls : List Call} {out : List UInt8} (h : Goes c c' calls out)
    (ht : Call.takenIn calls = 0) : c'.ends.sink.accepted = c.ends.sink.accepted := by
  obtain ⟨taken, ha, -, hlen⟩ := h.accepted
  rw [List.length_eq_zero_iff.1 (hlen.symm.trans ht), List.append_nil] at ha
  exact Array.toList_inj.1 ha

/-- In an exchange that reads, a flush leads to `c` and leaves nothing pending, and then come the
attempts. -/
structure Exchange.Reads (x : Exchange) (c : Channel) (flushing reading : List Call) : Prop where
  flushes : Goes x.before c flushing []
  drained : c.pending = #[]
  reads : Goes c x.after reading []
  quiet : ∀ call ∈ flushing, ¬ call.isRead
  isRead : ∀ call ∈ reading, call.isRead
  guarded : Call.Guarded (flushing ++ reading)

theorem exists_reads (h : c.flush = .ok () c') :
    ∃ flushing reading, Exchange.Reads ⟨.read, c⟩ c' flushing reading := by
  obtain ⟨writing, hf, hquiet, -, hp⟩ := flush_ok_goes h
  obtain ⟨n, call, hc, hr⟩ := readByte_goes h
  have hguarded := (Call.guarded_of_not_isRead hquiet).attempts call n (.inl (by simp))
  rw [← channel_operate_read] at hr
  exact ⟨_, _, hf, hp, hr, hquiet, fun _ => Call.isRead_of_mem_attempts hc, hguarded⟩

namespace Exchange

variable {x : Exchange} {flushing reading : List Call}

theorem Reads.calls_eq (h : x.Reads c flushing reading) : x.calls = flushing ++ reading :=
  calls_of_goes (h.flushes.trans h.reads)

theorem not_isRead_of_ne_read (h : x.operation ≠ .read) : ∀ call ∈ x.calls, ¬ call.isRead := by
  obtain ⟨calls, hg, -, hq⟩ := x.exists_goes
  rw [calls_of_goes hg]
  exact hq h

/-- When its flush fails, a read leaves the reader alone. -/
theorem read_refused {f : IoFailure} (h : c.flush = .error f c') :
    (∀ call ∈ (⟨.read, c⟩ : Exchange).calls, ¬ call.isRead)
      ∧ (⟨.read, c⟩ : Exchange).after.ends.reader = c.ends.reader
      ∧ (⟨.read, c⟩ : Exchange).result = .error f c' := by
  have hresult : (⟨.read, c⟩ : Exchange).result = .error f c' := by
    simp only [result, operate, readByte_of_flush_error h]
  have hafter : (⟨.read, c⟩ : Exchange).after = c' := by
    rw [after, hresult]
    rfl
  obtain ⟨calls, hg, hq, hr⟩ := flush_error_goes h
  rw [← hafter] at hg hr
  rw [calls_of_goes hg]
  exact ⟨hq, hr, hresult⟩

/-- Attempts to read are made in an exchange that reads, and in no other. -/
theorem reads_of_mem {call : Call} (hc : call ∈ x.calls) (hr : call.isRead) :
    ∃ c flushing reading, x.Reads c flushing reading := by
  obtain ⟨op, c⟩ := x
  cases op with
  | write b => exact absurd hr (not_isRead_of_ne_read (x := ⟨.write b, c⟩) nofun call hc)
  | read =>
    rcases h : c.flush with ⟨_, c'⟩ | ⟨f, c'⟩
    · exact ⟨c', exists_reads h⟩
    · exact absurd hr ((read_refused h).1 call hc)
  | flush => exact absurd hr (not_isRead_of_ne_read (x := ⟨.flush, c⟩) nofun call hc)

theorem Reads.takenIn_eq {a b : List Call} {call : Call} (h : x.Reads c flushing reading)
    (hc : x.calls = a ++ call :: b) (hr : call.isRead) :
    Call.takenIn a = Call.takenIn flushing := by
  rw [h.calls_eq] at hc
  rcases List.append_eq_append_iff.1 hc with ⟨d, rfl, hd⟩ | ⟨d, rfl, hd⟩
  · have hnone : Call.takenIn d = 0 :=
      Call.takenIn_of_isRead fun call' hmem => h.isRead call' (by simp [hd, hmem])
    rw [Call.takenIn_append, hnone, Nat.add_zero]
  · cases d with
    | nil => simp
    | cons call' d =>
      obtain ⟨rfl, -⟩ := List.cons.inj hd
      exact absurd hr (h.quiet call (by simp))

theorem guarded_calls (x : Exchange) : Call.Guarded x.calls := by
  by_cases h : ∃ call ∈ x.calls, call.isRead
  · obtain ⟨call, hc, hr⟩ := h
    obtain ⟨c, flushing, reading, hx⟩ := reads_of_mem hc hr
    rw [hx.calls_eq]
    exact hx.guarded
  · exact Call.guarded_of_not_isRead fun call hc hr => h ⟨call, hc, hr⟩

theorem guarded_flatMap : ∀ xs : List Exchange, Call.Guarded (xs.flatMap Exchange.calls)
  | [] => Call.guarded_of_not_isRead (by simp)
  | x :: xs => x.guarded_calls.append (guarded_flatMap xs)

end Exchange

/-- By an attempt to read, the sink has taken all that was written in earlier exchanges. -/
theorem delivered_of_isRead {ends : Endpoints} {ops : List Operation}
    {before after : List Exchange} {x : Exchange} {a b : List Call} {call : Call}
    (hxs : exchanges { ends } ops = before ++ x :: after) (hc : x.calls = a ++ call :: b)
    (hr : call.isRead) :
    Call.takenIn (before.flatMap Exchange.calls ++ a) = (before.flatMap Exchange.output).length
      ∧ x.after.ends.sink.accepted.toList
        = ends.sink.accepted.toList ++ before.flatMap Exchange.output := by
  have hmem : call ∈ x.calls := by simp [hc]
  obtain ⟨c, flushing, reading, h⟩ := Exchange.reads_of_mem hmem hr
  have hg := (goes_before hxs).trans h.flushes
  constructor
  · have hsize := hg.pending_size
    simp only [h.drained, Call.takenIn_append, List.append_nil, Array.size_empty] at hsize
    rw [Call.takenIn_append, h.takenIn_eq hc hr]
    omega
  · obtain ⟨taken, ha, hp, -⟩ := hg.accepted
    rw [h.reads.accepted_of_takenIn (Call.takenIn_of_isRead h.isRead), ha]
    simpa [h.drained] using hp

/-- Flushing and closing do not read. -/
theorem close_flush (c : Channel) : ∃ calls,
    c.flush.channel.close.log.toList = c.ends.log.toList ++ calls
      ∧ (∀ call ∈ calls, ¬ call.isRead) ∧ c.flush.channel.close.reader = c.ends.reader := by
  obtain ⟨calls, hg, hq, hr⟩ := c.channel_goes_of_flush
  obtain ⟨calls', hg', hw, hr'⟩ := c.flush.channel.writeOut_goes
  rw [close_eq]
  refine ⟨calls ++ calls', (hg.trans hg').log, fun call hc => ?_, hr'.trans hr⟩
  rcases List.mem_append.1 hc with hc | hc
  · exact hq call hc
  · exact Call.not_isRead_of_isWrite (hw call hc)

end Channel

end TapeMachine
