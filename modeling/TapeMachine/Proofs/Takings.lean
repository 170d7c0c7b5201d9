import Mathlib
import TapeMachine.Proofs.Jobs

/-!
# Takings

What the sink has taken by the end of an execution, on every path (`Session.execute_leaves`). All
that the program wrote and a newline, if all went well; a first part of what it wrote, and no
newline, if the run failed; all of it, with the newline or without, if only the newline failed;
nothing, if there was nothing to run. A sink that refuses nothing has taken all that the program
wrote, also when the program then fails.
-/

namespace TapeMachine

open Machine
open Channel (Goes)

/-- The sink did not take what it was offered, or did not flush. -/
def Call.isRefusal : Call → Bool
  | wrote count => count = 0
  | writeFailed | flushFailed => true
  | _ => false

namespace Endpoints

/-- Some call between `before` and `after` was refused by the sink. -/
def Refused (before after : Endpoints) : Prop :=
  ∃ calls, after.log.toList = before.log.toList ++ calls ∧ ∃ call ∈ calls, call.isRefusal

/-- The sink has taken a first part of `out`, and all of it if it refused nothing. -/
def TookSome (before after : Endpoints) (out : List UInt8) : Prop :=
  ∃ taken calls, after.sink.accepted.toList = before.sink.accepted.toList ++ taken ∧ taken <+: out
    ∧ after.log.toList = before.log.toList ++ calls
    ∧ ((∀ call ∈ calls, ¬ call.isRefusal) → taken = out)

/-- Nothing was read or written, or attempted to be. -/
def Untouched (before after : Endpoints) : Prop :=
  after.reader = before.reader ∧ after.sink.accepted = before.sink.accepted
    ∧ ∃ calls, after.log.toList = before.log.toList ++ calls
      ∧ ∀ call ∈ calls, ¬ call.isRead ∧ ¬ call.isWrite

theorem Refused.one {before after : Endpoints} {call : Call}
    (h : after.log = before.log.push call) (hr : call.isRefusal) : Refused before after :=
  ⟨[call], by simp [h], call, by simp, hr⟩

theorem Refused.after_push {before before' after : Endpoints} {call : Call}
    (h : before'.log = before.log.push call) (hr : Refused before' after) :
    Refused before after := by
  obtain ⟨calls, hl, c, hc, hcr⟩ := hr
  exact ⟨call :: calls, by simp [hl, h], c, List.mem_cons_of_mem _ hc, hcr⟩

theorem refused_of_deliver (stalled : IoFailure) (e : Endpoints) (data : List UInt8)
    (h : (e.deliver stalled data).failure ≠ none) : Refused e (e.deliver stalled data).ends := by
  fun_induction Endpoints.deliver stalled e data with
  | case1 e data hdata => exact absurd rfl h
  | case2 e data hdata sink hw ih => exact (ih h).after_push rfl
  | case3 e data hdata f sink hw => exact .one rfl rfl
  | case4 e data hdata sink hw => exact .one rfl rfl
  | case5 e data hdata k sink hw ih => exact (ih h).after_push rfl

/-- A flush of the sink is one call, by which nothing is taken. -/
theorem flushSink_eq (e : Endpoints) :
    e.flushSink.2.reader = e.reader ∧ e.flushSink.2.sink.accepted = e.sink.accepted
      ∧ e.flushSink.2.log
        = e.log.push (if e.flushSink.1 = none then .flushed else .flushFailed) := by
  have ha := e.sink.accepted_flush
  unfold flushSink
  rcases hf : e.sink.flush with ⟨_ | f, sink⟩ <;> rw [hf] at ha
  · exact ⟨rfl, ha, rfl⟩
  · exact ⟨rfl, ha, rfl⟩

end Endpoints

open Endpoints (Refused TookSome Untouched)

namespace Channel

variable {c c' : Channel}

/-- Of a flush that fails, a call was refused. -/
theorem refused_of_flush {f : IoFailure} (h : c.flush = .error f c') : Refused c.ends c'.ends := by
  have hd := c.ends.refused_of_deliver stalled c.pending.toList
  obtain ⟨calls, hg, -⟩ := c.writeOut_goes
  unfold flush at h
  split at h
  · rename_i hw
    cases h
    unfold writeOut at hw
    split at hw <;> cases hw
    rename_i hdeliver
    rw [hdeliver] at hd
    exact hd nofun
  · rename_i c1 hw
    rw [hw] at hg
    split at h <;> cases h
    rename_i ends hf
    unfold Endpoints.flushSink at hf
    split at hf <;> cases hf
    refine ⟨calls ++ [.flushFailed], ?_, .flushFailed, by simp, rfl⟩
    have hl := hg.log
    simp only [Result.channel_ok] at hl
    simp [hl]

end Channel

/-! ## The end of a run -/

/-- Two accounts of what was added to a log are one. -/
theorem Endpoints.Refused.mem {before after : Endpoints} {calls : List Call}
    (h : Refused before after) (hl : after.log.toList = before.log.toList ++ calls) :
    ∃ call ∈ calls, call.isRefusal := by
  obtain ⟨calls', hl', hc⟩ := h
  rwa [List.append_cancel_left (hl.symm.trans hl')]

variable {ends : Endpoints} {calls : List Call} {out : List UInt8} {e : Ending}

/-- However a run ends, what the sink does not get is what it refuses. -/
theorem tookSome_conclude (h : Goes { ends } e.machine.world.channel calls out) :
    TookSome ends (conclude e).2 out := by
  obtain ⟨closing, hclose, -⟩ := e.machine.world.channel.flush.channel.writeOut_goes
  rw [ends_conclude, Channel.close_eq]
  rcases hf : e.machine.world.channel.flush with ⟨⟨⟩, d⟩ | ⟨f, d⟩ <;> rw [hf] at hclose
  · obtain ⟨flushing, hflush, -, -, hnone⟩ := Channel.flush_ok_goes hf
    have hg := (h.trans hflush).trans hclose
    simp only [Channel.Result.channel_ok, writeOut_of_pending hnone] at hg ⊢
    obtain ⟨taken, ha, hp, -⟩ := hg.accepted
    obtain rfl : taken = out := by simpa [hnone] using hp
    exact ⟨taken, _, ha, List.prefix_refl _, hg.log, fun _ => rfl⟩
  · obtain ⟨flushing, hflush, -⟩ := Channel.flush_error_goes hf
    have hg := (h.trans hflush).trans hclose
    obtain ⟨taken, ha, hp, -⟩ := hg.accepted
    refine ⟨taken, _, ha, ⟨_, by simpa using hp⟩, hg.log, fun hquiet => ?_⟩
    obtain ⟨call, hc, hr⟩ := (Channel.refused_of_flush hf).mem hflush.log
    exact absurd hr (hquiet call (by simp [hc]))

theorem took_of_finished {o : Outcome} {ends' : Endpoints}
    (h : Goes { ends } e.machine.world.channel calls out)
    (hc : conclude e = (.finished o, ends')) :
    ends'.sink.accepted.toList = ends.sink.accepted.toList ++ out
      ∧ o.bytesWritten = out.length ∧ ∃ calls, ends'.log.toList = ends.log.toList ++ calls := by
  obtain ⟨fault?, ⟨⟨tape, channel⟩, pc, steps⟩⟩ := e
  rcases hf : channel.flush with ⟨⟨⟩, d⟩ | ⟨f, d⟩ <;> simp only [conclude, hf] at hc
  · obtain ⟨flushing, hflush, -, -, hnone⟩ := Channel.flush_ok_goes hf
    have hg := h.trans hflush
    obtain ⟨taken, ha, hp, -⟩ := hg.accepted
    have hw := hg.written
    obtain rfl : taken = out := by simpa [hnone] using hp
    cases fault? with
    | some f => cases hc
    | none =>
      cases hc
      rw [Channel.close_eq, writeOut_of_pending hnone]
      exact ⟨ha, by simpa [outcome] using hw, _, hg.log⟩
  · cases fault? <;> cases hc

/-- An engine's fault outranks that of the flush after it. -/
theorem result_conclude_of_fault {f : Fault} (h : e.fault? = some f) :
    (conclude e).1.result = .error f := by
  rw [conclude_eq_aborted_iff.2 ⟨h, rfl⟩]
  rfl

/-- A run fails as its engine did, or because its last output was refused. -/
theorem fault_of_result_conclude {f : Fault} (h : (conclude e).1.result = .error f) :
    e.fault? = some f ∨ f.kind = .io := by
  rcases hfault : e.fault? with _ | g
  · obtain ⟨fault?, ⟨⟨tape, channel⟩, pc, steps⟩⟩ := e
    cases hfault
    rcases hf : channel.flush with ⟨⟨⟩, d⟩ | ⟨g, d⟩ <;> simp only [conclude, hf] at h <;> cases h
    exact .inr rfl
  · rw [result_conclude_of_fault hfault] at h
    cases h
    exact .inl rfl

/-- Once its brackets are checked, a job fails at the tape or at an endpoint only. -/
theorem Job.kind_of_conclude {j : Job} (hj : j.Balanced) {fuel : Nat} {m : Machine} {f : Fault}
    (h : j.execute fuel m = some e) (hc : (conclude e).1.result = .error f) :
    f.kind = .tapeOutOfRange ∨ f.kind = .io := by
  rcases fault_of_result_conclude hc with hf | hio
  · obtain ⟨fault?, m'⟩ := e
    cases hf
    rw [execute_of_balanced hj] at h
    exact (ordered hj).kind_of_run h
  · exact .inr hio

/-- A run that fails at a bracket has used its endpoints for a flush only. -/
theorem untouched_conclude_start (f : Fault) (tape : Tape) (ends : Endpoints) :
    Untouched ends (conclude ⟨some f, start tape { ends }⟩).2 := by
  obtain ⟨hr, ha, hl⟩ := ends.flushSink_eq
  rw [conclude_start]
  refine ⟨hr, ha, [_], by rw [hl, Array.toList_push], fun call hc => ?_⟩
  rw [List.mem_singleton.1 hc]
  split <;> decide

namespace Session

/-! ## The end of an execution -/

/-- How the engine of an execution ends, if there is something to run. -/
def ending? (s : Session) (fuel : Nat) (mode : Mode) (ends : Endpoints) : Option Ending :=
  match s.job mode with
  | .ok j => j.execute fuel (entry s.config ends)
  | .error _ => none

/-- What the program of an execution writes. -/
def written (s : Session) (fuel : Nat) (mode : Mode) (ends : Endpoints) : List UInt8 :=
  match s.job mode with
  | .ok j => j.written fuel (entry s.config ends)
  | .error _ => []

/-- What an execution with a result leaves behind, if its program wrote `out`. -/
def Leaves (before after : Endpoints) (out : List UInt8) : Except Failure Outcome → Prop
  | .ok o =>
    after.sink.accepted.toList = before.sink.accepted.toList ++ (out ++ [10])
      ∧ o.bytesWritten = out.length
      ∧ ∃ calls, after.log.toList = before.log.toList ++ (calls ++ [.flushed])
  | .error (.program (.unmatchedOpen _)) | .error (.program (.unmatchedClose _))
  | .error (.program .noProgram) => Untouched before after
  | .error (.program (.outOfTape ..)) | .error (.program (.io _)) => TookSome before after out
  | .error (.stream _) =>
    after.sink.accepted.toList = before.sink.accepted.toList ++ out
      ∨ after.sink.accepted.toList = before.sink.accepted.toList ++ (out ++ [10])
  | .error _ => False

theorem endLine_none {ends e : Endpoints} (h : endLine ends = (none, e)) :
    e.sink.accepted.toList = ends.sink.accepted.toList ++ [10]
      ∧ ∃ calls, e.log.toList = ends.log.toList ++ (calls ++ [.flushed]) := by
  obtain ⟨taken, calls, hw, hd, hnone⟩ := ends.deliver_wrote unfinishedNewline [10]
  unfold endLine at h
  rcases hdeliver : ends.deliver unfinishedNewline [10] with ⟨left, _ | f, ends'⟩ <;>
    rw [hdeliver] at h hw hd hnone
  · have h : ends'.flushSink = (none, e) := h
    obtain ⟨-, ha, hl⟩ := ends'.flushSink_eq
    simp only [h, if_true] at ha hl
    obtain rfl : left = [] := hnone rfl
    obtain rfl : taken = [10] := by simpa using hd.symm
    have hlog : ends'.log.toList = ends.log.toList ++ calls := hw.log
    exact ⟨(congrArg Array.toList ha).trans hw.accepted, calls, by simp [hl, hlog]⟩
  · cases h

theorem endLine_some {ends e : Endpoints} {f : IoFailure} (h : endLine ends = (some f, e)) :
    e.sink.accepted.toList = ends.sink.accepted.toList
      ∨ e.sink.accepted.toList = ends.sink.accepted.toList ++ [10] := by
  obtain ⟨taken, calls, hw, hd, -⟩ := ends.deliver_wrote unfinishedNewline [10]
  have htaken : taken = [] ∨ taken = [10] := by
    rcases taken with _ | ⟨b, taken⟩
    · exact .inl rfl
    · obtain ⟨rfl, hrest⟩ := List.cons.inj hd
      rw [(List.append_eq_nil_iff.1 hrest.symm).1]
      exact .inr rfl
  have ha : e.sink.accepted = (ends.deliver unfinishedNewline [10]).ends.sink.accepted := by
    unfold endLine at h
    rcases hdeliver : ends.deliver unfinishedNewline [10] with ⟨left, _ | g, ends'⟩ <;>
      rw [hdeliver] at h
    · have h : ends'.flushSink = (some f, e) := h
      have ha := ends'.flushSink_eq.2.1
      rwa [h] at ha
    · cases h
      rfl
  rw [ha, hw.accepted]
  rcases htaken with rfl | rfl
  · exact .inl (List.append_nil _)
  · exact .inr rfl

/-- If there is nothing to run, then there is no source, or one that cannot be lowered. -/
theorem leaves_of_no_job {s : Session} {mode : Mode} {f : Failure} (h : s.job mode = .error f)
    (ends : Endpoints) (out : List UInt8) : Leaves ends ends out (.error f) := by
  have hsame : Untouched ends ends := ⟨rfl, rfl, [], by simp, by simp⟩
  cases mode with
  | direct =>
    simp only [job] at h
    rcases hs : s.source? with _ | source <;> simp only [hs] at h <;> cases h
    exact hsame
  | ir =>
    simp only [job, obtainProgram] at h
    rcases hp : s.program? with _ | p <;> simp only [hp] at h
    · simp only [compile] at h
      rcases hs : s.source? with _ | source <;> simp only [hs] at h
      · cases h
        exact hsame
      · rcases hl : source.lower with g | ⟨p, stats⟩ <;> simp only [hl] at h <;> cases h
        unfold Source.lower at hl
        rcases hu : source.lowerBytes with (i | i) | r <;> rw [hu] at hl <;> cases hl
        · exact hsame
        · exact hsame
    · cases h

theorem leaves_of_kind {f : Fault} (hk : f.kind = .tapeOutOfRange ∨ f.kind = .io)
    {before after : Endpoints} {out : List UInt8} (h : TookSome before after out) :
    Leaves before after out (.error (.program f)) := by
  cases f with
  | outOfTape => exact h
  | io => exact h
  | _ => simp [Fault.kind] at hk

theorem leaves_of_isStructural {f : Fault} (hf : f.isStructural) {before after : Endpoints}
    (h : Untouched before after) (out : List UInt8) :
    Leaves before after out (.error (.program f)) := by
  cases f with
  | unmatchedOpen => exact h
  | unmatchedClose => exact h
  | _ => simp [Fault.isStructural, Fault.kind] at hf

/-- What the run of a job leaves, and the newline after it. -/
theorem leaves_settle {j : Job} {fuel : Nat} {config : Config} {ends : Endpoints} {x : Ending}
    (h : j.execute fuel (entry config ends) = some x) :
    Leaves ends (settle (Machine.conclude x)).2 (j.written fuel (entry config ends))
      (settle (Machine.conclude x)).1 := by
  obtain ⟨calls, hg⟩ := j.goes_execute h
  rcases hc : (Machine.conclude x).1.result with f | o <;> simp only [settle, hc]
  · have hsome := tookSome_conclude hg
    rcases j.balanced_or_failed with hj | ⟨g, hstructural, hfails⟩
    · exact leaves_of_kind (Job.kind_of_conclude hj h hc) hsome
    · -- the run has failed before its first step
      obtain rfl : x = ⟨some g, entry config ends⟩ := Option.some.inj (h.symm.trans (hfails ..))
      obtain rfl : g = f := by
        rw [result_conclude_of_fault rfl] at hc
        exact Except.error.inj hc
      exact leaves_of_isStructural hstructural (untouched_conclude_start ..) _
  · rcases hfin : Machine.conclude x with ⟨completion, ends'⟩
    rw [hfin] at hc
    obtain rfl : completion = .finished o := by
      cases completion <;> cases hc
      rfl
    obtain ⟨ha, hw, calls, hl⟩ := took_of_finished hg hfin
    rcases he : endLine ends' with ⟨_ | f, ends''⟩ <;> simp only
    · obtain ⟨ha', calls', hl'⟩ := endLine_none he
      exact ⟨by rw [ha', ha, List.append_assoc], hw, calls ++ calls', by simp [hl', hl]⟩
    · rcases endLine_some he with ha' | ha'
      · exact .inl (ha'.trans ha)
      · exact .inr (by rw [ha', ha, List.append_assoc])

/-- What an execution leaves with its sink, by the way it ends (`Leaves`). That the head left the
tape is told whether the flush after it goes well or not. -/
theorem execute_leaves {s : Session} {fuel : Nat} {mode : Mode} {ends : Endpoints} {e : Execution}
    (h : s.execute fuel mode ends = some e) :
    Leaves ends e.ends (s.written fuel mode ends) e.response.result
      ∧ ∀ head size m, s.ending? fuel mode ends = some ⟨some (.outOfTape head size), m⟩ →
        e.response.result = .error (.program (.outOfTape head size)) := by
  have hreport := congrArg (Option.map Execution.report) h
  rw [report_execute, Option.map_some] at hreport
  unfold written ending?
  rcases hjob : s.job mode with f | j <;> simp only [hjob] at hreport ⊢
  · obtain ⟨hresult, hends⟩ := Prod.mk.inj (Option.some.inj hreport)
    rw [← hresult, ← hends]
    refine ⟨leaves_of_no_job hjob ends [], fun _ _ _ hx => ?_⟩
    cases hx
  · rw [Job.run_eq, Option.map_map] at hreport
    obtain ⟨x, hx, hr⟩ := Option.map_eq_some_iff.1 hreport
    obtain ⟨hresult, hends⟩ := Prod.mk.inj hr
    rw [← hresult, ← hends]
    refine ⟨leaves_settle hx, fun head size m hx' => ?_⟩
    cases hx.symm.trans hx'
    have hf := result_conclude_of_fault (e := ⟨some (.outOfTape head size), m⟩) rfl
    rw [hf]

/-- A program that writes one byte and then leaves the tape. -/
theorem execute_leaves_left :
    ∃ e, execute ⟨⟨1, .direct, by decide⟩, false, some ⟨#[46, 60]⟩, none⟩ 3 .direct (.ofBytes [])
        = some e
      ∧ e.response.result = .error (.program (.outOfTape (-1) 1))
      ∧ TookSome (.ofBytes []) e.ends [0] := by
  have hreport : (execute ⟨⟨1, .direct, by decide⟩, false, some ⟨#[46, 60]⟩, none⟩ 3 .direct
      (.ofBytes [])).map Execution.report = some (.error (.program (.outOfTape (-1) 1)),
        ⟨⟨[.bytes []]⟩, { accepted := #[0] }, #[.wrote 1, .flushed]⟩) := by cbv
  have hwritten : written ⟨⟨1, .direct, by decide⟩, false, some ⟨#[46, 60]⟩, none⟩ 3 .direct
      (.ofBytes []) = [0] := by cbv
  obtain ⟨e, he, hr⟩ := Option.map_eq_some_iff.1 hreport
  have hresult : e.response.result = .error (.program (.outOfTape (-1) 1)) := congrArg Prod.fst hr
  have hleaves := (execute_leaves he).1
  rw [hwritten, hresult] at hleaves
  exact ⟨e, he, hresult, hleaves⟩

end Session

end TapeMachine
