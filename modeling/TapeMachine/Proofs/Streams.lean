import TapeMachine.Proofs.Attempts

/-!
# Plain streams

A reader is plain if nothing but bytes is to arrive, in whatever pieces. Only a read has to do with
the reader: any other operation does the same whatever is to arrive (`Channel.flush_withReader`,
`Channel.writeByte_withReader`). A read takes one byte off a plain stream, if one is left, and never
looks further (`Channel.readByte_plain`). Bytes that arrive are counted, on any stream, and nothing
else is (`Channel.bytesRead_after`). So after any operations the stream stands behind the bytes
that were counted, and there was one attempt for each of them that returned it (`Channel.Draws`).
-/

namespace TapeMachine

/-- An attempt to read that returned a byte. -/
def Call.isArrival : Call → Bool
  | read (_ + 1) => true
  | _ => false

theorem Call.not_isArrival_of_not_isRead {call : Call} (h : ¬ call.isRead) : ¬ call.isArrival := by
  cases call <;> simp_all [isRead, isArrival]

namespace Reader

/-- Nothing but bytes is to arrive. -/
def Plain (r : Reader) : Prop := ∀ arrival ∈ r.script, ∃ data, arrival = .bytes data

theorem plain_ofBytes (data : List UInt8) : (ofBytes data).Plain := by
  intro arrival h
  exact ⟨data, List.mem_singleton.1 h⟩

theorem remaining_ofBytes (data : List UInt8) : (ofBytes data).remaining = data :=
  List.append_nil data

/-- What is read where `data` is still to arrive. -/
def answerOf : List UInt8 → Answer
  | [] => .endOfInput
  | b :: _ => .byte b

/-- An attempt to read from a plain stream takes the first byte off, if there is one. -/
theorem await_plain : ∀ {script : List Arrival}, Plain ⟨script⟩ → ∃ r' : Reader, r'.Plain
    ∧ r'.remaining = (remaining ⟨script⟩).tail ∧ ∀ log, await script log
      = (answerOf (remaining ⟨script⟩), r'.script,
        log.push (.read ((remaining ⟨script⟩).take 1).length))
  | [], h => ⟨⟨[]⟩, h, rfl, fun _ => rfl⟩
  | .bytes [] :: rest, h =>
    @await_plain rest fun arrival ha => h arrival (List.mem_cons_of_mem _ ha)
  | .bytes (b :: data) :: rest, h => by
    refine ⟨⟨.bytes data :: rest⟩, fun arrival ha => ?_, rfl, fun _ => rfl⟩
    rcases List.mem_cons.1 ha with rfl | ha
    · exact ⟨data, rfl⟩
    · exact h arrival (List.mem_cons_of_mem _ ha)
  | .failure f :: rest, h => by
    obtain ⟨data, hd⟩ := h _ List.mem_cons_self
    cases hd
  | .endOfInput :: rest, h => by
    obtain ⟨data, hd⟩ := h _ List.mem_cons_self
    cases hd

end Reader

namespace Endpoints

def withReader (e : Endpoints) (r : Reader) : Endpoints := { e with reader := r }

theorem deliver_withReader (stalled : IoFailure) (e : Endpoints) (data : List UInt8)
    (r : Reader) : (e.withReader r).deliver stalled data
      = { e.deliver stalled data with ends := (e.deliver stalled data).ends.withReader r } := by
  fun_induction Endpoints.deliver stalled e data with
  | case1 e data hdata => rw [deliver, if_pos hdata]
  | case2 e data hdata sink hw ih =>
    rw [deliver, if_neg hdata]
    split <;> rename_i hw' <;> cases hw.symm.trans hw'
    exact ih
  | case3 e data hdata f sink hw =>
    rw [deliver, if_neg hdata]
    split <;> rename_i hw' <;> cases hw.symm.trans hw'
    rfl
  | case4 e data hdata sink hw =>
    rw [deliver, if_neg hdata]
    split <;> rename_i hw' <;> cases hw.symm.trans hw'
    rfl
  | case5 e data hdata k sink hw ih =>
    rw [deliver, if_neg hdata]
    split <;> rename_i hw' <;> cases hw.symm.trans hw'
    exact ih

theorem flushSink_withReader (e : Endpoints) (r : Reader) :
    (e.withReader r).flushSink = (e.flushSink.1, e.flushSink.2.withReader r) := by
  unfold flushSink withReader
  rcases e.sink.flush with ⟨_ | f, sink⟩ <;> rfl

end Endpoints

namespace Channel

def withReader (c : Channel) (r : Reader) : Channel := { c with ends := c.ends.withReader r }

def Result.withReader {α : Type} (x : Result α) (r : Reader) : Result α :=
  match x with
  | .ok a c => .ok a (c.withReader r)
  | .error f c => .error f (c.withReader r)

theorem Result.channel_withReader {α : Type} (x : Result α) (r : Reader) :
    (x.withReader r).channel = x.channel.withReader r := by
  cases x <;> rfl

theorem writeOut_withReader (c : Channel) (r : Reader) :
    (c.withReader r).writeOut = c.writeOut.withReader r := by
  unfold writeOut withReader
  rw [Endpoints.deliver_withReader]
  rcases c.ends.deliver stalled c.pending.toList with ⟨left, _ | f, ends⟩ <;> rfl

theorem flush_withReader (c : Channel) (r : Reader) :
    (c.withReader r).flush = c.flush.withReader r := by
  unfold flush
  rw [writeOut_withReader]
  rcases c.writeOut with ⟨_, c'⟩ | ⟨f, c'⟩
  · simp only [Result.withReader, withReader, Endpoints.flushSink_withReader]
    rcases c'.ends.flushSink with ⟨_ | f, ends⟩ <;> rfl
  · rfl

theorem writeByte_withReader (c : Channel) (b : UInt8) (r : Reader) :
    (c.withReader r).writeByte b = (c.writeByte b).withReader r := by
  have hsize : (c.withReader r).pending.size = c.pending.size := rfl
  unfold writeByte
  rw [hsize, writeOut_withReader]
  by_cases h : c.pending.size < capacity
  · rw [if_pos h, if_pos h]
    rfl
  · rw [if_neg h, if_neg h]
    rcases c.writeOut with ⟨_, c'⟩ | ⟨f, c'⟩ <;> rfl

theorem close_withReader (c : Channel) (r : Reader) :
    (c.withReader r).close = c.close.withReader r := by
  rw [close_eq, close_eq, writeOut_withReader, Result.channel_withReader]
  rfl

/-- From `c` to `c'` nothing was read, and no attempt was made. -/
structure Quiet (c c' : Channel) : Prop where
  reader : c'.ends.reader = c.ends.reader
  bytesRead : c'.bytesRead = c.bytesRead
  log : ∃ calls, c'.ends.log.toList = c.ends.log.toList ++ calls ∧ ∀ call ∈ calls, ¬ call.isRead

theorem bytesRead_writeOut (c : Channel) : c.writeOut.channel.bytesRead = c.bytesRead := by
  unfold writeOut
  split <;> rfl

theorem bytesRead_flush (c : Channel) : c.flush.channel.bytesRead = c.bytesRead := by
  have hw := c.bytesRead_writeOut
  rw [← hw, flush]
  rcases c.writeOut with ⟨_, c'⟩ | ⟨f, c'⟩
  · simp only
    rcases c'.ends.flushSink with ⟨_ | f, ends⟩ <;> rfl
  · rfl

theorem bytesRead_writeByte (c : Channel) (b : UInt8) :
    (c.writeByte b).channel.bytesRead = c.bytesRead := by
  have hw := c.bytesRead_writeOut
  unfold writeByte
  split
  · rfl
  · rw [← hw]
    rcases c.writeOut with ⟨_, c'⟩ | ⟨f, c'⟩ <;> rfl

theorem flush_quiet (c : Channel) : c.Quiet c.flush.channel := by
  obtain ⟨calls, hg, hq, hr⟩ := c.channel_goes_of_flush
  exact ⟨hr, c.bytesRead_flush, calls, hg.log, hq⟩

theorem quiet_of_flush {c : Channel} {x : Result Unit} (h : c.flush = x) : c.Quiet x.channel :=
  h ▸ c.flush_quiet

theorem writeByte_quiet (c : Channel) (b : UInt8) : c.Quiet (c.writeByte b).channel := by
  have hreader : (c.writeByte b).channel.ends.reader = c.ends.reader := by
    -- a channel is itself with its own reader
    have h := congrArg Result.channel (c.writeByte_withReader b c.ends.reader)
    rw [Result.channel_withReader] at h
    exact congrArg (·.ends.reader) h
  refine ⟨hreader, c.bytesRead_writeByte b, ?_⟩
  rcases h : c.writeByte b with ⟨_, c'⟩ | ⟨f, c'⟩
  · obtain ⟨calls, hg, hw, -⟩ := writeByte_ok_goes h
    exact ⟨calls, hg.log, fun call hc => Call.not_isRead_of_isWrite (hw call hc)⟩
  · obtain ⟨calls, hg, hw⟩ := writeByte_error_goes h
    exact ⟨calls, hg.log, fun call hc => Call.not_isRead_of_isWrite (hw call hc)⟩

/-- The byte that arrived in an exchange, if one did. -/
def Exchange.input (x : Exchange) : List UInt8 :=
  match x.operation, x.before.flush with
  | .read, .ok _ c =>
    match c.ends.awaitByte.1 with
    | .byte b => [b]
    | _ => []
  | _, _ => []

/-- The bytes that arrived are counted, and nothing else is. -/
theorem bytesRead_after (x : Exchange) :
    x.after.bytesRead = x.before.bytesRead + x.input.length := by
  obtain ⟨op, c⟩ := x
  cases op with
  | write b => exact c.bytesRead_writeByte b
  | flush => exact c.bytesRead_flush
  | read =>
    have hflush := c.bytesRead_flush
    have hafter : (⟨.read, c⟩ : Exchange).after = c.readByte.channel := c.channel_operate_read
    rw [hafter]
    rcases hf : c.flush with ⟨_, c'⟩ | ⟨f, c'⟩ <;> rw [hf] at hflush <;>
      simp only [Exchange.input, readByte, hf]
    · rw [← hflush]
      rcases c'.ends.awaitByte with ⟨b | _ | f, ends⟩ <;> rfl
    · exact hflush

theorem bytesRead_afterAll : ∀ (ops : List Operation) (c : Channel),
    (c.afterAll ops).bytesRead = c.bytesRead + ((c.exchanges ops).flatMap Exchange.input).length
  | [], _ => rfl
  | op :: ops, c => by
    have hop := bytesRead_after ⟨op, c⟩
    rw [afterAll, bytesRead_afterAll ops, hop, exchanges, List.flatMap_cons, List.length_append,
      Nat.add_assoc]

variable {c c' : Channel}

/-- What a read takes off a plain stream, once the flush before it went well: the first byte, or
nothing at the end. -/
theorem readByte_plain (hf : c.flush = .ok () c') (hp : c.ends.reader.Plain) :
    ∃ r : Reader, r.Plain ∧ r.remaining = c.ends.reader.remaining.tail ∧
      c.readByte = .ok (c.ends.reader.remaining.headD endOfInputByte)
        { c' with
          ends := ⟨r, c'.ends.sink,
            c'.ends.log.push (.read (c.ends.reader.remaining.take 1).length)⟩
          bytesRead := c.bytesRead + (c.ends.reader.remaining.take 1).length } := by
  have hq : c.Quiet c' := quiet_of_flush hf
  rw [← hq.reader] at hp ⊢
  rw [← hq.bytesRead]
  obtain ⟨r, hr, hrest, ha⟩ := Reader.await_plain hp
  refine ⟨r, hr, hrest, ?_⟩
  simp only [readByte, hf, Endpoints.awaitByte, ha]
  rcases c'.ends.reader.remaining with _ | ⟨b, rest⟩ <;> rfl

/-- From `c` to `c'` bytes were read off a plain stream, each by an attempt of its own. -/
structure Draws (c c' : Channel) : Prop where
  plain : c'.ends.reader.Plain
  drawn : ∃ bytes, c.ends.reader.remaining = bytes ++ c'.ends.reader.remaining
    ∧ c'.bytesRead = c.bytesRead + bytes.length
    ∧ ∃ calls, c'.ends.log.toList = c.ends.log.toList ++ calls
      ∧ calls.countP Call.isArrival = bytes.length

namespace Draws

theorem refl (h : c.ends.reader.Plain) : Draws c c := ⟨h, [], rfl, rfl, [], by simp⟩

theorem trans {c'' : Channel} (h : Draws c c') (h' : Draws c' c'') : Draws c c'' := by
  obtain ⟨bytes, hb, hn, calls, hl, hc⟩ := h.drawn
  obtain ⟨bytes', hb', hn', calls', hl', hc'⟩ := h'.drawn
  refine ⟨h'.plain, bytes ++ bytes', ?_, ?_, calls ++ calls', ?_, ?_⟩
  · rw [hb, hb', List.append_assoc]
  · rw [hn', hn, List.length_append, Nat.add_assoc]
  · rw [hl', hl, List.append_assoc]
  · rw [List.countP_append, hc, hc', List.length_append]

theorem of_quiet (h : c.ends.reader.Plain) (hq : c.Quiet c') : Draws c c' := by
  obtain ⟨calls, hl, hc⟩ := hq.log
  refine ⟨by rwa [hq.reader], [], by rw [hq.reader]; rfl, hq.bytesRead, calls, hl, ?_⟩
  rw [List.length_nil, List.countP_eq_zero]
  exact fun call hcall => Call.not_isArrival_of_not_isRead (hc call hcall)

end Draws

theorem draws_of_read (h : c.ends.reader.Plain) : Draws c c.readByte.channel := by
  rcases hf : c.flush with ⟨_, c'⟩ | ⟨f, c'⟩
  · have hq : c.Quiet c' := quiet_of_flush hf
    obtain ⟨r, hr, hrest, hread⟩ := readByte_plain hf h
    refine (Draws.of_quiet h hq).trans ⟨?_, c.ends.reader.remaining.take 1, ?_, ?_, ?_⟩
    · rw [hread]
      exact hr
    · rw [hread, hq.reader]
      simp only [Result.channel_ok, hrest]
      cases c.ends.reader.remaining <;> rfl
    · rw [hread, hq.bytesRead]
      rfl
    · rw [hread]
      refine ⟨[.read (c.ends.reader.remaining.take 1).length], by simp, ?_⟩
      rcases c.ends.reader.remaining with _ | ⟨b, rest⟩ <;> rfl
  · rw [readByte_of_flush_error hf]
    exact .of_quiet h (quiet_of_flush hf)

theorem draws_of_operate (h : c.ends.reader.Plain) : ∀ op : Operation,
    Draws c (c.operate op).channel
  | .write b => .of_quiet h (c.writeByte_quiet b)
  | .read => by
    rw [channel_operate_read]
    exact draws_of_read h
  | .flush => .of_quiet h c.flush_quiet

theorem draws_afterAll : ∀ (ops : List Operation) {c : Channel}, c.ends.reader.Plain →
    Draws c (c.afterAll ops)
  | [], _, h => .refl h
  | op :: ops, _, h =>
    have hop := draws_of_operate h op
    hop.trans (draws_afterAll ops hop.plain)

end Channel

end TapeMachine
