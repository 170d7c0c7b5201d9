import TapeMachine.Proofs.Causality
import TapeMachine.Proofs.Chunks
import TapeMachine.Proofs.Modes

/-!
# Runs on plain input

A process reads bytes from its standard input and prints what it likes: no read fails, and nothing
that is written is refused. So at the end of a run all of its output is delivered, with a newline if
it went well, and what is left of the input is what the run has not read (`Job.settle_plain`). A
source that cannot be run leaves all of it (`Session.spends_runAsConfigured`).
-/

namespace TapeMachine

open Machine

/-! ## A sink that takes everything -/

theorem Machine.sink_conclude_steady {e : Ending} (h : e.machine.world.channel.Steady) :
    (conclude e).2.sink.Steady := by
  obtain ⟨fault?, ⟨⟨tape, c⟩, pc, steps⟩⟩ := e
  obtain ⟨c', hf, hp, hnone⟩ := Channel.flush_prints h
  have hclose : c'.close = c'.ends := by
    rw [Channel.close_eq, writeOut_of_pending hnone]
    rfl
  have hsteady : c'.ends.sink.Steady := hp.steady
  cases fault? <;> simpa only [conclude, hf, hclose] using hsteady

theorem Machine.reader_conclude (e : Ending) :
    (conclude e).2.reader = e.machine.world.channel.ends.reader := by
  obtain ⟨-, -, -, hreader⟩ := e.machine.world.channel.close_flush
  rw [ends_conclude, hreader]

namespace Session

theorem endLine_steady {ends : Endpoints} (h : ends.sink.Steady) :
    ∃ e, endLine ends = (none, e) := by
  obtain ⟨hnone, hs⟩ := ends.deliver_steady unfinishedNewline [10] h
  unfold endLine
  rcases hd : ends.deliver unfinishedNewline [10] with ⟨left, failure?, ends'⟩
  rw [hd] at hnone hs
  obtain rfl : failure? = none := hnone
  obtain ⟨e, he, -⟩ := ends'.flushSink_steady hs
  exact ⟨e, he⟩

/-- To end the line reads nothing. -/
theorem reader_endLine (ends : Endpoints) : (endLine ends).2.reader = ends.reader := by
  obtain ⟨taken, calls, hw, -⟩ := ends.deliver_wrote unfinishedNewline [10]
  have hreader := hw.reader
  unfold endLine
  rcases hd : ends.deliver unfinishedNewline [10] with ⟨left, _ | f, ends'⟩ <;> rw [hd] at hreader
  · exact ends'.flushSink_eq.1.trans hreader
  · exact hreader

end Session

/-! ## Bytes to read -/

theorem Endpoints.fluent_ofBytes (input : List UInt8) : (ofBytes input).reader.Fluent := by
  intro arrival h
  exact .inl ⟨input, by simpa [ofBytes, Reader.ofBytes] using h⟩

theorem Endpoints.steady_ofBytes (input : List UInt8) : (ofBytes input).sink.Steady :=
  Sink.Sound.steady (by constructor <;> simp [ofBytes])

namespace Job

variable {j : Job} {config : Config} {input : List UInt8} {fuel : Nat} {x : Ending}

theorem steady_execute (h : j.execute fuel (entry config (.ofBytes input)) = some x) :
    x.machine.world.channel.Steady := by
  have hr := Endpoints.fluent_ofBytes input
  have hs := Endpoints.steady_ofBytes input
  have hentry : (entry config (.ofBytes input)).Beside Reader.Carry ⟨[], [], 0, 0⟩
      (entry config (.ofBytes input)) :=
    ⟨rfl, rfl, rfl, hs, hs, ⟨hr, hr, rfl⟩, ⟨[], rfl, rfl⟩, rfl⟩
  exact ((j.execute_alike hentry).2 fuel fuel x x h h).2.channel.steady

/-- At its end, a run stands behind as many bytes of the input as it has counted. -/
theorem behind_execute (h : j.execute fuel (entry config (.ofBytes input)) = some x) :
    x.machine.world.channel.ends.reader.Behind input x.machine.world.channel.bytesRead
      x.machine.world.channel.ends.log.toList := by
  have hplain : (Endpoints.ofBytes input).reader.Plain := Reader.plain_ofBytes input
  obtain ⟨calls, hlog, -, hdraws⟩ := j.draws_progress fuel config hplain
  have hbehind := hdraws.behind hlog
  rw [machine_progress h] at hlog hbehind
  obtain rfl : x.machine.world.channel.ends.log.toList = calls := hlog
  have hinput : (Endpoints.ofBytes input).reader.remaining = input := Reader.remaining_ofBytes input
  rwa [hinput] at hbehind

/-- A run on plain input goes well if its engine does, and then so does the newline after it. -/
theorem settle_plain (h : j.execute fuel (entry config (.ofBytes input)) = some x) :
    (Session.settle (conclude x)).1.isOk = x.fault?.isNone
      ∧ (Session.settle (conclude x)).2.reader.remaining
        = input.drop x.machine.world.channel.bytesRead
      ∧ (Session.settle (conclude x)).2.sink.accepted.toList
        = j.written fuel (entry config (.ofBytes input))
          ++ if x.fault?.isNone then [10] else [] := by
  have hsteady := steady_execute h
  obtain ⟨hcompletion, haccepted⟩ := conclude_steady hsteady
  obtain ⟨calls, hg⟩ := goes_execute h
  have houtput : x.machine.world.channel.output = [] ++ j.written fuel (entry config _) :=
    hg.output_of_start
  rw [houtput, List.nil_append] at haccepted
  have hleft : (conclude x).2.reader.remaining = input.drop x.machine.world.channel.bytesRead := by
    rw [reader_conclude, (behind_execute h).remaining]
  rcases hfault : x.fault? with _ | f <;> rw [hfault] at hcompletion
  · have hresult : (conclude x).1.result = .ok x.machine.outcome := by
      rw [hcompletion]
      rfl
    obtain ⟨e, he⟩ := Session.endLine_steady (sink_conclude_steady hsteady)
    have hreader := Session.reader_endLine (conclude x).2
    rw [he] at hreader
    simp only [Session.settle, hresult, he]
    refine ⟨rfl, by rw [hreader, hleft], ?_⟩
    rw [(Session.endLine_none he).1, haccepted]
    rfl
  · have hresult : (conclude x).1.result = .error f := by
      rw [hcompletion]
      rfl
    simp only [Session.settle, hresult]
    refine ⟨rfl, hleft, ?_⟩
    rw [haccepted]
    simp

/-- After a run that went well the newline goes well too, and one byte more than was written is
taken. -/
theorem endLine_of_finished {o : Outcome} {e : Endpoints}
    (h : j.run fuel config (.ofBytes input) = some (.finished o, e)) :
    ∃ e', Session.endLine e = (none, e') ∧ e'.sink.accepted.size = o.bytesWritten + 1 := by
  rw [run_eq] at h
  obtain ⟨x, hx, hc⟩ := Option.map_eq_some_iff.1 h
  have hsteady := sink_conclude_steady (steady_execute hx)
  rw [hc] at hsteady
  obtain ⟨e', he'⟩ := Session.endLine_steady hsteady
  refine ⟨e', he', ?_⟩
  obtain ⟨hnewline, -⟩ := Session.endLine_none he'
  obtain ⟨calls, hg⟩ := goes_execute hx
  obtain ⟨htook, hwritten, -⟩ := took_of_finished hg hc
  rw [hwritten, ← Array.length_toList, hnewline, htook]
  simp [Endpoints.ofBytes]

end Job

/-- What comes of a source on a plain input: whether it goes well, what it leaves of the input and
what it puts out. If its brackets do not match there is nothing to run, and nothing is read. What a
run has read is what it has counted, byte for byte, and all that it writes is put out, with a
newline if it goes well. -/
inductive Source.Spends (source : Source) (config : Config) (input : List UInt8) :
    Bool → List UInt8 → List UInt8 → Prop
  | idle {f : Fault} : source.checkBalance = .error f → Spends source config input false input []
  | ran {j : Job} {fuel : Nat} {x : Ending} : source.checkBalance = .ok () →
    source.job config.mode = .ok j → j.execute fuel (entry config (.ofBytes input)) = some x →
    x.machine.world.channel.ends.reader.Behind input x.machine.world.channel.bytesRead
      x.machine.world.channel.ends.log.toList →
    Spends source config input x.fault?.isNone (input.drop x.machine.world.channel.bytesRead)
      (j.written fuel (entry config (.ofBytes input)) ++ if x.fault?.isNone then [10] else [])

theorem Source.Spends.suffix {source : Source} {config : Config} {input left out : List UInt8}
    {well : Bool} (h : source.Spends config input well left out) : left <:+ input := by
  cases h with
  | idle _ => exact List.suffix_refl input
  | ran _ _ _ _ => exact List.drop_suffix _ input

/-- A source that was just loaded into a session spends what the session hands it. -/
theorem Session.spends_runAsConfigured {s : Session} {source : Source} {fuel : Nat}
    {input : List UInt8} {e : Execution} (hs : s.source? = some source) (hp : s.program? = none)
    (h : s.runAsConfigured fuel (.ofBytes input) = some e) :
    source.Spends s.config input e.response.result.isOk e.ends.reader.remaining
      e.ends.sink.accepted.toList := by
  rcases hc : source.checkBalance with f | _
  · obtain ⟨ends, hreport, hreader, haccepted⟩ :=
      report_runAsConfigured_of_not_balanced hs hp hc fuel (.ofBytes input)
    rw [h] at hreport
    obtain ⟨hresult, rfl⟩ := Prod.mk.inj (Option.some.inj hreport)
    have hleft : e.ends.reader.remaining = input := by
      rw [hreader]
      exact Reader.remaining_ofBytes input
    rw [hresult, hleft, haccepted]
    exact .idle hc
  · obtain ⟨j, hj, -, hreport⟩ := report_runAsConfigured_of_balanced hs hp hc
    have hrun := hreport fuel (.ofBytes input)
    rw [h, Job.run_eq, Option.map_map, Option.map_some] at hrun
    obtain ⟨x, hx, hr⟩ := Option.map_eq_some_iff.1 hrun.symm
    obtain ⟨hwell, hleft, hout⟩ := Job.settle_plain hx
    have hends : settle (Machine.conclude x) = (e.response.result, e.ends) := hr
    rw [hends] at hwell hleft hout
    rw [hwell, hleft, hout]
    exact .ran hc hj hx (Job.behind_execute hx)

theorem Session.spends_evaluate {s : Session} {text : String} {fuel : Nat} {input : List UInt8}
    {e : Execution} (h : s.evaluate fuel text (.ofBytes input) = some e) :
    (Source.ofString text).Spends s.config input e.response.result.isOk e.ends.reader.remaining
      e.ends.sink.accepted.toList := by
  obtain ⟨e', he', rfl⟩ := Option.map_eq_some_iff.1 h
  exact spends_runAsConfigured (s := (s.loadText text).session) (e := e') rfl rfl he'

end TapeMachine
