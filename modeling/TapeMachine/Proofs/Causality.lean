import Mathlib
import TapeMachine.Proofs.Lockstep
import TapeMachine.Proofs.Steady

/-!
# Causality

A run has no way to know what it has not read. If two plain streams begin with the same `k` bytes,
then up to its next attempt to read after `k` a run makes the same calls and puts out the same on
either, and a run with no more than `k` attempts has the same result (`Job.reads_are_causal`). It
leaves the stream behind the bytes that it has counted, for whoever reads on.
-/

namespace TapeMachine

open Machine
open Channel (Operation Exchange exchanges afterAll)

section UpTo

variable {α : Type} {weight : α → Nat} {k : Nat}

/-- The front of a list, up to the member with which the weights come to more than `k`. -/
def upTo (weight : α → Nat) : Nat → List α → List α
  | _, [] => []
  | k, x :: xs => if weight x ≤ k then x :: upTo weight (k - weight x) xs else []

theorem upTo_of_sum_le : ∀ {k : Nat} {xs : List α}, (xs.map weight).sum ≤ k →
    upTo weight k xs = xs
  | _, [], _ => rfl
  | k, x :: xs, h => by
    rw [List.map_cons, List.sum_cons] at h
    rw [upTo, if_pos (by omega), upTo_of_sum_le (by omega)]

theorem upTo_append_of_lt : ∀ {k : Nat} {xs ys : List α}, (xs.map weight).sum ≤ k →
    (∀ y ∈ ys.head?, k < (xs.map weight).sum + weight y) → upTo weight k (xs ++ ys) = xs
  | _, [], [], _, _ => rfl
  | k, [], y :: ys, _, hy => by
    have := hy y rfl
    rw [List.nil_append, upTo, if_neg (by simpa using this)]
  | k, x :: xs, ys, h, hy => by
    rw [List.map_cons, List.sum_cons] at h
    rw [List.cons_append, upTo, if_pos (by omega), upTo_append_of_lt (by omega) fun y hmem => ?_]
    have := hy y hmem
    rw [List.map_cons, List.sum_cons] at this
    omega

end UpTo

/-- One for an attempt to read. -/
def Call.attempt (call : Call) : Nat := if call.isRead then 1 else 0

theorem Call.sum_attempt (calls : List Call) :
    (calls.map attempt).sum = calls.countP isRead := by
  induction calls with
  | nil => rfl
  | cons call calls ih =>
    rw [List.map_cons, List.sum_cons, ih, List.countP_cons, attempt, Nat.add_comm]

/-- How many attempts to read were made in an exchange. -/
def Channel.Exchange.attempts (x : Exchange) : Nat := x.calls.countP Call.isRead

theorem Channel.Exchange.sum_attempts (xs : List Exchange) :
    (xs.map attempts).sum = (xs.flatMap calls).countP Call.isRead := by
  rw [List.countP_flatMap]
  rfl

/-- The calls of a run before the attempt to read that comes after `k` others. -/
def Progress.callsUpTo (k : Nat) (ends : Endpoints) (r : Progress) : List Call :=
  upTo Call.attempt k ((exchanges { ends } r.asked).flatMap Exchange.calls)

/-- The bytes that were put out before the attempt to read that comes after `k` others. -/
def Progress.outputUpTo (k : Nat) (ends : Endpoints) (r : Progress) : List UInt8 :=
  (upTo Exchange.attempts k (exchanges { ends } r.asked)).flatMap Exchange.output

/-- `c` is how the channel of a run stands before the attempt to read that comes after `k` others,
or now if there was none. -/
structure Progress.StandsAt (k : Nat) (ends : Endpoints) (r : Progress) (c : Channel) : Prop where
  log : c.ends.log.toList = ends.log.toList ++ r.callsUpTo k ends
  output : c.output = ends.sink.accepted.toList ++ r.outputUpTo k ends

namespace Channel

variable {k : Nat} {c : Channel} {ends : Endpoints} {calls : List Call}

theorem attempts_of_log (h : c.ends.log.toList = ends.log.toList ++ calls) :
    c.attempts = ({ ends } : Channel).attempts + calls.countP Call.isRead := by
  rw [attempts, attempts, h, List.countP_append]

theorem standsAt_of_le {r : Progress} (hc : afterAll { ends } r.asked = c)
    (hk : c.attempts ≤ ({ ends } : Channel).attempts + k) : r.StandsAt k ends c := by
  have hgoes := goes_exchanges r.asked { ends }
  rw [hc] at hgoes
  have hlog : c.ends.log.toList = ends.log.toList ++ _ := hgoes.log
  rw [attempts_of_log hlog] at hk
  constructor
  · rw [Progress.callsUpTo, upTo_of_sum_le (by rw [Call.sum_attempt]; omega)]
    exact hlog
  · rw [Progress.outputUpTo, upTo_of_sum_le (by rw [Exchange.sum_attempts]; omega)]
    exact hgoes.output_of_start

/-- The flush before the attempt belongs to what comes before it. -/
theorem standsAt_of_read {ops later : List Operation} {r : Progress}
    (hr : r.asked = ops ++ .read :: later) (hf : (afterAll { ends } ops).flush = .ok () c)
    (hk : c.attempts = ({ ends } : Channel).attempts + k) : r.StandsAt k ends c := by
  have hgoes := goes_exchanges ops { ends }
  obtain ⟨flushing, hflush, hquiet, -⟩ := flush_ok_goes hf
  obtain ⟨n, call, hcall, hread⟩ := readByte_goes hf
  rw [← channel_operate_read] at hread
  have hx : (⟨.read, afterAll { ends } ops⟩ : Exchange).calls
      = (flushing ++ [.flushed]) ++ (List.replicate n .readInterrupted ++ [call]) :=
    Exchange.calls_of_goes (x := ⟨.read, _⟩) (hflush.trans hread)
  have hlog : c.ends.log.toList = ends.log.toList ++ _ := (hgoes.trans hflush).log
  rw [attempts_of_log hlog] at hk
  -- the flush makes no attempt, so all `k` were made before it
  have hops : ((exchanges { ends } ops).flatMap Exchange.calls).countP Call.isRead = k := by
    rw [List.countP_append, List.countP_eq_zero.2 hquiet] at hk
    omega
  constructor
  · rw [Progress.callsUpTo, hr, exchanges_append, List.flatMap_append, exchanges,
      List.flatMap_cons, hx, List.append_assoc (flushing ++ _), ← List.append_assoc,
      upTo_append_of_lt]
    · exact hlog
    · rw [Call.sum_attempt]
      omega
    · intro y hy
      have hmem : y ∈ List.replicate n Call.readInterrupted ++ [call] := by
        cases n <;> simp_all [List.replicate_succ]
      rw [Call.sum_attempt, Call.attempt, if_pos (Call.isRead_of_mem_attempts hcall hmem)]
      omega
  · rw [Progress.outputUpTo, hr, exchanges_append, exchanges, upTo_append_of_lt]
    · rw [(hgoes.trans hflush).output_of_start, List.append_nil]
    · rw [Exchange.sum_attempts]
      omega
    · intro y hy
      obtain rfl := Option.some.inj hy
      have hpos : 0 < Exchange.attempts ⟨.read, afterAll { ends } ops⟩ := by
        rw [Exchange.attempts, hx, List.countP_pos_iff]
        exact ⟨call, by simp, hcall⟩
      rw [Exchange.sum_attempts, hops]
      omega

theorem attempts_lt_of_read {start : Channel} {ops : List Operation}
    (hf : (start.afterAll ops).flush = .ok () c) (later : List Operation) :
    c.attempts < (start.afterAll (ops ++ .read :: later)).attempts := by
  obtain ⟨n, call, hcall, hread⟩ := readByte_goes hf
  rw [← channel_operate_read] at hread
  have hlog := (hread.trans (goes_exchanges later _)).log
  rw [attempts, attempts, afterAll_append]
  have hlog' : ((start.afterAll ops).afterAll (.read :: later)).ends.log.toList = _ := hlog
  have hpos : 0 < (List.replicate n Call.readInterrupted ++ [call]).countP Call.isRead :=
    List.countP_pos_iff.2 ⟨call, by simp, hcall⟩
  rw [hlog', List.countP_append, List.countP_append]
  omega

end Channel

theorem Machine.bytesRead_of_finished {e : Ending} {o : Outcome} {ends : Endpoints}
    (h : conclude e = (.finished o, ends)) : o.bytesRead = e.machine.world.channel.bytesRead := by
  obtain ⟨_ | f, ⟨⟨tape, c⟩, pc, steps⟩⟩ := e
  · have hread := c.bytesRead_flush
    rcases hf : c.flush with ⟨_, c'⟩ | ⟨f, c'⟩ <;> simp only [conclude, hf] at h <;> cases h
    rw [hf] at hread
    exact hread
  · cases h

theorem Machine.conclude_withReader (e : Ending) (r : Reader) :
    conclude (e.withReader r) = ((conclude e).1, (conclude e).2.withReader r) := by
  obtain ⟨fault?, ⟨⟨tape, c⟩, pc, steps⟩⟩ := e
  have hflush := c.flush_withReader r
  simp only [Ending.withReader, Machine.withReader, withChannel, conclude, hflush]
  rcases c.flush with ⟨_, c⟩ | ⟨f, c⟩ <;>
    simp only [Channel.Result.withReader, Channel.close_withReader] <;> rfl

namespace Job

/-- How many attempts to read were made on the way. -/
def attempts (j : Job) (fuel : Nat) (m : Machine) : Nat :=
  ((exchanges m.world.channel (j.progress fuel m).asked).map Exchange.attempts).sum

variable {j : Job} {fuel k : Nat} {config : Config} {ends : Endpoints} {r : Reader}

/-- What a run on a plain stream adds to the log, and what it takes off the stream. -/
theorem draws_progress (j : Job) (fuel : Nat) (config : Config) (hp : ends.reader.Plain) :
    ∃ calls, (j.progress fuel (entry config ends)).machine.world.channel.ends.log.toList
        = ends.log.toList ++ calls
      ∧ calls.countP Call.isRead = j.attempts fuel (entry config ends)
      ∧ Channel.Draws { ends } (j.progress fuel (entry config ends)).machine.world.channel := by
  have hgoes := Channel.goes_exchanges (j.progress fuel (entry config ends)).asked { ends }
  rw [j.channel_progress]
  exact ⟨_, hgoes.log, (Exchange.sum_attempts _).symm, Channel.draws_afterAll _ hp⟩

theorem lockstep_entry (hj : j.Balanced) (hp : ends.reader.Plain) (hp' : r.Plain)
    (hk : ends.reader.remaining.take k = r.remaining.take k) (config : Config) (fuel : Nat) :
    Lockstep j (({ ends } : Channel).attempts + k) fuel (entry config ends) r := by
  refine lockstep hj fuel ⟨hp, hp', Nat.le_add_right .., ?_⟩
  have hleft : ({ ends } : Channel).attempts + k - (entry config ends).world.channel.attempts = k :=
    Nat.add_sub_cancel_left ..
  rw [hleft]
  exact hk

theorem standsAt_withReader (j : Job) (hp : ends.reader.Plain) (hp' : r.Plain)
    (hk : ends.reader.remaining.take k = r.remaining.take k) (config : Config) (fuel : Nat) :
    ∃ c r', (j.progress fuel (entry config ends)).StandsAt k ends c
      ∧ (j.progress fuel (entry config (ends.withReader r))).StandsAt k (ends.withReader r)
        (c.withReader r') := by
  by_cases hj : j.Balanced
  · have hc := j.channel_progress fuel (entry config ends)
    have hc' := j.channel_progress fuel (entry config (ends.withReader r))
    rw [progress_of_balanced hj] at hc hc' ⊢
    rw [progress_of_balanced hj]
    cases lockstep_entry hj hp hp' hk config fuel with
    | together r' asked machine ending foretells =>
      have hm : (Machine.progress j.engine j.asks? fuel
          (entry config (ends.withReader r))).machine = _ := machine
      rw [hm] at hc'
      exact ⟨_, r', Channel.standsAt_of_le hc.symm foretells.attempts_le,
        Channel.standsAt_of_le hc'.symm foretells.attempts_le⟩
    | parted ops later later' c r' asked asked' same flush attempts =>
      have hflush : (afterAll { ends := ends.withReader r } ops).flush
          = .ok () (c.withReader r') := by
        have hsame : afterAll { ends := ends.withReader r } ops = _ := same
        rw [hsame, Channel.flush_withReader]
        exact congrArg (Channel.Result.withReader · r') flush
      exact ⟨c, r', Channel.standsAt_of_read asked flush attempts,
        Channel.standsAt_of_read asked' hflush attempts⟩
  · rw [progress_of_not_balanced hj, progress_of_not_balanced hj]
    exact ⟨{ ends }, r, Channel.standsAt_of_le rfl (Nat.le_add_right ..),
      Channel.standsAt_of_le rfl (Nat.le_add_right ..)⟩

/-- A run with no more than `k` attempts to read. -/
theorem execute_withReader (hp : ends.reader.Plain) (hp' : r.Plain)
    (hk : ends.reader.remaining.take k = r.remaining.take k)
    (hle : j.attempts fuel (entry config ends) ≤ k) :
    ∃ r', j.execute fuel (entry config (ends.withReader r))
      = (j.execute fuel (entry config ends)).map (·.withReader r') := by
  rcases j.balanced_or_failed with hj | ⟨f, -, hf⟩
  · obtain ⟨calls, hlog, hcalls, -⟩ := j.draws_progress fuel config hp
    have hattempts := Channel.attempts_of_log hlog
    rw [execute_of_balanced hj, execute_of_balanced hj]
    cases lockstep_entry hj hp hp' hk config fuel with
    | together r' asked machine ending foretells => exact ⟨r', ending⟩
    | parted ops later later' c r' asked asked' same flush attempts =>
      -- one attempt more than may be
      have hmore := Channel.attempts_lt_of_read flush later
      rw [← asked, ← progress_of_balanced hj, ← j.channel_progress] at hmore
      omega
  · rw [hf, hf]
    exact ⟨r, rfl⟩

theorem run_withReader {r' : Reader} (h : j.execute fuel (entry config (ends.withReader r))
      = (j.execute fuel (entry config ends)).map (·.withReader r')) :
    j.run fuel config (ends.withReader r)
      = (j.run fuel config ends).map fun x => (x.1, x.2.withReader r') := by
  rw [run_eq, run_eq, h, Option.map_map, Option.map_map]
  exact congrArg ((j.execute fuel (entry config ends)).map ·)
    (funext fun e => conclude_withReader e r')

/-- Of a plain stream, only the bytes that are still to arrive come into a run. -/
theorem run_ofBytes (j : Job) (fuel : Nat) (config : Config) (hp : ends.reader.Plain) :
    ∃ r', j.run fuel config (ends.withReader (.ofBytes ends.reader.remaining))
      = (j.run fuel config ends).map fun x => (x.1, x.2.withReader r') := by
  have hsame : ends.reader.remaining = (Reader.ofBytes ends.reader.remaining).remaining :=
    (Reader.remaining_ofBytes _).symm
  have hle := Nat.le_refl (j.attempts fuel (entry config ends))
  obtain ⟨r', he⟩ := execute_withReader hp (Reader.plain_ofBytes _) (congrArg _ hsame) hle
  exact ⟨r', run_withReader he⟩

/-- What comes after the last step of a run reads nothing. -/
theorem exists_rest {completion : Completion} {e : Endpoints}
    (h : j.run fuel config ends = some (completion, e)) :
    let c := (j.progress fuel (entry config ends)).machine.world.channel
    e.reader = c.ends.reader ∧ (∀ o, completion = .finished o → o.bytesRead = c.bytesRead)
      ∧ ∃ rest, e.log.toList = c.ends.log.toList ++ rest ∧ ∀ call ∈ rest, ¬ call.isRead := by
  rw [run_eq] at h
  obtain ⟨⟨fault?, m⟩, hrun, hc⟩ := Option.map_eq_some_iff.1 h
  rw [machine_progress hrun]
  have hends : m.world.channel.flush.channel.close = e := by
    rw [← ends_conclude ⟨fault?, m⟩, hc]
  obtain ⟨rest, hrest, hquiet, hreader⟩ := m.world.channel.close_flush
  rw [hends] at hrest hreader
  refine ⟨hreader, ?_, rest, hrest, hquiet⟩
  rintro o rfl
  exact bytesRead_of_finished hc

end Job

/-- A stream, of which `data` was to arrive, stands behind its first `n` bytes. Each of them was
returned by one of the calls. -/
structure Reader.Behind (data : List UInt8) (n : Nat) (calls : List Call) (r : Reader) :
    Prop where
  plain : r.Plain
  le : n ≤ data.length
  remaining : r.remaining = data.drop n
  arrivals : calls.countP Call.isArrival = n

theorem Reader.Behind.append {data : List UInt8} {n : Nat} {calls rest : List Call} {r : Reader}
    (h : r.Behind data n calls) (hq : ∀ call ∈ rest, ¬ call.isRead) :
    r.Behind data n (calls ++ rest) := by
  have hnone : rest.countP Call.isArrival = 0 :=
    List.countP_eq_zero.2 fun call hcall => Call.not_isArrival_of_not_isRead (hq call hcall)
  exact ⟨h.plain, h.le, h.remaining, by rw [List.countP_append, h.arrivals, hnone, Nat.add_zero]⟩

theorem Channel.Draws.behind {c : Channel} {ends : Endpoints} {calls : List Call}
    (h : Draws { ends } c) (hlog : c.ends.log.toList = ends.log.toList ++ calls) :
    c.ends.reader.Behind ends.reader.remaining c.bytesRead calls := by
  obtain ⟨bytes, hb, hn, calls', hlog', hc⟩ := h.drawn
  have hb : ends.reader.remaining = bytes ++ c.ends.reader.remaining := hb
  have hn : c.bytesRead = bytes.length := hn.trans (Nat.zero_add _)
  obtain rfl : calls = calls' := List.append_cancel_left (hlog.symm.trans hlog')
  rw [hb, hn]
  exact ⟨h.plain, by simp, by simp, hc⟩

namespace Job

/-- If two plain streams have the first `k` bytes in common, a job makes the same calls on either,
and puts out the same, before the attempt to read that comes after `k` others; and as long as there
is no such attempt, its runs have the same result. At any time the stream stands behind the bytes
that were counted, of which each was returned by one attempt to read. So it does at the end of a
run, and whoever reads next finds just the rest. -/
theorem reads_are_causal (j : Job) (config : Config) {ends : Endpoints}
    (hp : ends.reader.Plain) :
    (∀ r k, r.Plain → ends.reader.remaining.take k = r.remaining.take k → ∀ fuel,
      let a := j.progress fuel (entry config ends)
      let b := j.progress fuel (entry config (ends.withReader r))
      a.callsUpTo k ends = b.callsUpTo k (ends.withReader r)
        ∧ a.outputUpTo k ends = b.outputUpTo k (ends.withReader r)
        ∧ (j.attempts fuel (entry config ends) ≤ k → ∃ r',
          j.execute fuel (entry config (ends.withReader r))
              = (j.execute fuel (entry config ends)).map (·.withReader r')
            ∧ j.run fuel config (ends.withReader r)
              = (j.run fuel config ends).map fun x => (x.1, x.2.withReader r')))
    ∧ ∀ fuel, let c := (j.progress fuel (entry config ends)).machine.world.channel
      (∃ calls, c.ends.log.toList = ends.log.toList ++ calls
        ∧ calls.countP Call.isRead = j.attempts fuel (entry config ends)
        ∧ c.ends.reader.Behind ends.reader.remaining c.bytesRead calls)
      ∧ ∀ completion e, j.run fuel config ends = some (completion, e) →
        (∃ calls, e.log.toList = ends.log.toList ++ calls
          ∧ calls.countP Call.isRead = j.attempts fuel (entry config ends)
          ∧ e.reader.Behind ends.reader.remaining c.bytesRead calls)
        ∧ (∀ o, completion = .finished o → o.bytesRead = c.bytesRead)
        ∧ ∀ (later : Job) config' fuel', ∃ r', later.run fuel' config'
            (e.withReader (.ofBytes (ends.reader.remaining.drop c.bytesRead)))
          = (later.run fuel' config' e).map fun x => (x.1, x.2.withReader r') := by
  refine ⟨fun r k hr hk fuel => ?_, fun fuel => ?_⟩
  · obtain ⟨c, r', hc, hc'⟩ := j.standsAt_withReader hp hr hk config fuel
    refine ⟨?_, ?_, fun hle => ?_⟩
    · exact List.append_cancel_left (hc.log.symm.trans hc'.log)
    · exact List.append_cancel_left (hc.output.symm.trans hc'.output)
    · obtain ⟨r', he⟩ := execute_withReader hp hr hk hle
      exact ⟨r', he, run_withReader he⟩
  · intro c
    obtain ⟨calls, hlog, hcalls, hdraws⟩ := j.draws_progress fuel config hp
    have hbehind := hdraws.behind hlog
    refine ⟨⟨calls, hlog, hcalls, hbehind⟩, fun completion e h => ?_⟩
    obtain ⟨hreader, hcount, rest, hrest, hquiet⟩ := exists_rest h
    rw [← hreader] at hbehind
    refine ⟨⟨calls ++ rest, ?_, ?_, hbehind.append hquiet⟩, hcount, fun later config' fuel' => ?_⟩
    · rw [hrest, hlog, List.append_assoc]
    · rw [List.countP_append, List.countP_eq_zero.2 hquiet, hcalls, Nat.add_zero]
    · rw [← hbehind.remaining]
      exact later.run_ofBytes fuel' config' hbehind.plain

/-- A program that reads and echoes, on two streams that differ behind their first byte. -/
theorem reads_are_causal_echo :
    (∃ r', (Job.source ⟨#[44, 46]⟩).run 3 ⟨1, .direct, by decide⟩
        ((Endpoints.ofBytes [5, 6]).withReader (.ofBytes [5, 7, 8]))
      = some (.finished ⟨⟨#[5], 0, by decide⟩, 2, 1, 1⟩,
        ⟨r', { accepted := #[5] }, #[.flushed, .read 1, .wrote 1, .flushed]⟩))
    ∧ (⟨[.bytes [6]]⟩ : Reader).Behind [5, 6] 1 [.flushed, .read 1, .wrote 1, .flushed] := by
  have hrun : (Job.source ⟨#[44, 46]⟩).run 3 ⟨1, .direct, by decide⟩ (.ofBytes [5, 6])
      = some (.finished ⟨⟨#[5], 0, by decide⟩, 2, 1, 1⟩,
        ⟨⟨[.bytes [6]]⟩, { accepted := #[5] }, #[.flushed, .read 1, .wrote 1, .flushed]⟩) := by cbv
  have hattempts : (Job.source ⟨#[44, 46]⟩).attempts 3
      (entry ⟨1, .direct, by decide⟩ (.ofBytes [5, 6])) = 1 := by cbv
  have hplain : (Endpoints.ofBytes [5, 6]).reader.Plain := Reader.plain_ofBytes [5, 6]
  obtain ⟨hpair, hstands⟩ :=
    reads_are_causal (.source ⟨#[44, 46]⟩) ⟨1, .direct, by decide⟩ hplain
  obtain ⟨-, -, hsame⟩ := hpair (.ofBytes [5, 7, 8]) 1 (Reader.plain_ofBytes _) rfl 3
  obtain ⟨r', -, hr'⟩ := hsame (Nat.le_of_eq hattempts)
  obtain ⟨⟨calls, hlog, -, hbehind⟩, hcount, -⟩ := (hstands 3).2 _ _ hrun
  obtain rfl : _ = calls := hlog
  rw [← hcount _ rfl] at hbehind
  rw [hrun] at hr'
  exact ⟨⟨r', hr'⟩, hbehind⟩

end Job

end TapeMachine
