import TapeMachine.Engine.Run
import TapeMachine.Proofs.SourceMap
import TapeMachine.Proofs.Verdict
import TapeMachine.Proofs.Walk

/-!
# The engines agree

Each step of a lowered program is one or more steps of the direct engine on its source: the text of
the instruction, and the comments behind it (`Program.Renders.simulates`). So the two engines come
to an end together, with the same use of the endpoints, and with the same tape or faults that agree
(`conduct_agrees`).
-/

namespace TapeMachine

open Draft Machine Nesting

/-- The same outcome, but for the number of steps and the place that a refused move names. -/
def Ending.Agrees : Ending → Ending → Prop
  | ⟨none, m⟩, ⟨none, m'⟩ => m.world = m'.world
  | ⟨some f, m⟩, ⟨some f', m'⟩ => f.Agrees f' ∧ m.world.channel = m'.world.channel
  | _, _ => False

/-- The same completion, but for the number of steps and the place that a refused move names. -/
def Completion.Agrees : Completion → Completion → Prop
  | finished o, finished o' =>
    o.tape = o'.tape ∧ o.bytesRead = o'.bytesRead ∧ o.bytesWritten = o'.bytesWritten
  | aborted f _, aborted f' _ => f.Agrees f'
  | undelivered f, undelivered f' => f = f'
  | _, _ => False

theorem conclude_agrees {e e' : Ending} (h : e.Agrees e') :
    (conclude e).1.Agrees (conclude e').1 ∧ (conclude e).2 = (conclude e').2 := by
  obtain ⟨_ | f, ⟨⟨tape, channel⟩, pc, steps⟩⟩ := e <;>
    obtain ⟨_ | f', ⟨⟨tape', channel'⟩, pc', steps'⟩⟩ := e'
  · cases h
    rcases hc : channel.flush with ⟨_, c⟩ | ⟨g, c⟩ <;> simp only [conclude, hc, and_true]
    · exact ⟨rfl, rfl, rfl⟩
    · rfl
  · cases h
  · cases h
  · obtain ⟨hf, rfl : channel = channel'⟩ := h
    rcases hc : channel.flush with ⟨_, c⟩ | ⟨g, c⟩ <;> simp only [conclude, hc, and_true]
    · exact hf
    · exact hf

namespace Program

/-- Where the text of the instruction at `k` begins. The end of the source comes after the last. -/
def place (p : Program) (s : Source) (k : Nat) : Nat :=
  match p.code[k]? with
  | some i => i.offset
  | none => s.size

/-- The direct engine is about to stand where the other one does. -/
def Abreast (p : Program) (s : Source) (a b : Machine) : Prop :=
  ∃ n steps, Takes s.step n a ⟨b.world, p.place s b.pc, steps⟩

theorem place_of_some {p : Program} {k : Nat} {i : Instruction} (h : p.code[k]? = some i)
    (s : Source) : p.place s k = i.offset := by
  rw [place, h]

theorem place_of_none {p : Program} {k : Nat} (h : p.code[k]? = none) (s : Source) :
    p.place s k = s.size := by
  rw [place, h]

namespace Renders

variable {p : Program} {s : Source} {k : Nat} {i : Instruction}

theorem mem_of_getElem? (h : p.code[k]? = some i) : i ∈ p.code.toList := by
  rw [← Array.getElem?_toList] at h
  exact List.mem_of_getElem? h

theorem stop_le_size (hr : p.Renders s) (h : p.code[k]? = some i) : i.stop ≤ s.size := by
  obtain ⟨rest, hrest⟩ := hr.text_prefix (mem_of_getElem? h)
  have hlen := congrArg List.length hrest
  have hpos : 0 < i.opcode.text.length := List.length_pos_iff.2 (hr.text_ne_nil (mem_of_getElem? h))
  simp only [List.length_append, List.length_drop, Array.length_toList] at hlen
  unfold Instruction.stop Source.size
  omega

theorem place_le_size (hr : p.Renders s) (k : Nat) : p.place s k ≤ s.size := by
  unfold place
  split
  · rename_i i h
    have := hr.stop_le_size h
    unfold Instruction.stop at this
    omega
  · exact Nat.le_refl _

theorem stop_le_offset (hr : p.Renders s) (h : p.code[k]? = some i) {k' : Nat} {i' : Instruction}
    (h' : p.code[k']? = some i') (hlt : k < k') : i.stop ≤ i'.offset := by
  rw [← Array.getElem?_toList] at h h'
  obtain ⟨hk, rfl⟩ := List.getElem?_eq_some_iff.1 h
  obtain ⟨hk', rfl⟩ := List.getElem?_eq_some_iff.1 h'
  exact (List.pairwise_iff_getElem.1 hr.pairwise k k' hk hk' hlt).2

theorem stop_le_place (hr : p.Renders s) (h : p.code[k]? = some i) {k' : Nat} (hlt : k < k') :
    i.stop ≤ p.place s k' := by
  unfold place
  split
  · rename_i i' h'
    exact hr.stop_le_offset h h' hlt
  · exact hr.stop_le_size h

theorem comment_between (hr : p.Renders s) {j : Nat} (hj : j < p.place s k)
    (hbefore : ∀ k' < k, ∀ i, p.code[k']? = some i → i.stop ≤ j) :
    ∃ b, s.bytes[j]? = some b ∧ Symbol.ofByte? b = none := by
  have hsize : j < s.bytes.size := Nat.lt_of_lt_of_le hj (hr.place_le_size k)
  refine ⟨s.bytes[j], Array.getElem?_eq_getElem hsize, ?_⟩
  refine hr.ofByte?_of_uncovered (Array.getElem?_eq_getElem hsize) fun i hi => ?_
  obtain ⟨k', hk'⟩ := List.getElem?_of_mem hi
  rw [Array.getElem?_toList] at hk'
  rcases Nat.lt_or_ge k' k with hlt | hge
  · exact .inr (hbefore k' hlt i hk')
  · left
    refine Nat.lt_of_lt_of_le hj ?_
    rcases Nat.eq_or_lt_of_le hge with rfl | hlt
    · rw [place_of_some hk']
    · unfold place
      split
      · rename_i i' h'
        have := hr.stop_le_offset h' hk' hlt
        unfold Instruction.stop at this
        omega
      · rename_i h'
        have := lt_size_of_getElem? hk'
        have := Array.getElem?_eq_none_iff.1 h'
        omega

theorem takes_to_place (hr : p.Renders s) {j : Nat} (hj : j ≤ p.place s k)
    (hbefore : ∀ k' < k, ∀ i, p.code[k']? = some i → i.stop ≤ j) (w : World) (steps : Nat) :
    Takes s.step (p.place s k - j) ⟨w, j, steps⟩ ⟨w, p.place s k, steps⟩ := by
  have ht := Source.takes_comments (p.place s k - j) ⟨w, j, steps⟩ fun d hd => by
    refine hr.comment_between (k := k) (show j + d < _ by omega) fun k' hk' i hi => ?_
    exact Nat.le_add_right_of_le (hbefore k' hk' i hi)
  simpa only [Nat.add_sub_cancel' hj] using ht

/-- After the text of an instruction the direct engine is abreast of the other at the next. -/
theorem abreast_stop (hr : p.Renders s) (h : p.code[k]? = some i) (w : World) (n n' : Nat) :
    p.Abreast s ⟨w, i.stop, n⟩ ⟨w, k + 1, n'⟩ := by
  refine ⟨_, n, hr.takes_to_place (hr.stop_le_place h (Nat.lt_succ_self k)) ?_ w n⟩
  intro k' hk' i' hi'
  rcases Nat.eq_or_lt_of_le (Nat.le_of_lt_succ hk') with rfl | hlt
  · rw [h] at hi'
    cases hi'
    exact Nat.le_refl _
  · have := hr.stop_le_offset hi' h hlt
    unfold Instruction.stop at this ⊢
    omega

/-- An instruction and its text do the same: both perform one action, or both jump to the place
after one instruction. -/
theorem exchange (hr : p.Renders s) (hp : p.size ≤ wordMax) {b : Machine}
    (h : p.code[b.pc]? = some i) (n : Nat) :
    (∃ a, p.step b = b.act a (b.pc + 1)
      ∧ Performs s.step ⟨b.world, i.offset, n⟩ (b.world.perform a) i.stop)
    ∨ ∃ k i', p.step b = b.jump (k + 1) ∧ p.code[k]? = some i'
      ∧ ∃ m n', Takes s.step (m + 1) ⟨b.world, i.offset, n⟩ ⟨b.world, i'.stop, n'⟩ := by
  obtain ⟨a | t | t, o⟩ := i
  · have hmem := mem_of_getElem? h
    have hop := opcode?_of_getElem? h
    refine .inl ⟨a, ?_, Source.performs_text (hr.text_ne_nil hmem) (hr.text_prefix hmem)⟩
    rw [step_act hop, after_of_opcode? hp hop]
  · right
    obtain ⟨o', hend, hpart⟩ := hr.starts b.pc t o h
    have hop := opcode?_of_getElem? h
    have hstep := step_loopStart hop
    have hslow := Source.step_loopOpen (m := ⟨b.world, o, n⟩) hpart
    by_cases h0 : b.world.tape.current = 0
    · rw [if_pos h0, after_of_opcode? hp (opcode?_of_getElem? hend)] at hstep
      simp only [if_pos h0] at hslow
      exact ⟨t, _, hstep, hend, 0, n + 1, Takes.one hslow⟩
    · rw [if_neg h0, after_of_opcode? hp hop] at hstep
      simp only [if_neg h0] at hslow
      exact ⟨b.pc, _, hstep, h, 0, n + 1, Takes.one hslow⟩
  · right
    obtain ⟨o', hstart, hpart⟩ := hr.ends b.pc t o h
    have hop := opcode?_of_getElem? h
    have hstep := step_loopEnd hop
    have hslow := Source.step_loopClose (m := ⟨b.world, o, n⟩) hpart
    by_cases h0 : b.world.tape.current = 0
    · rw [if_pos h0, after_of_opcode? hp hop] at hstep
      simp only [if_pos h0] at hslow
      exact ⟨b.pc, _, hstep, h, 0, n + 1, Takes.one hslow⟩
    · rw [if_neg h0, after_of_opcode? hp (opcode?_of_getElem? hstart)] at hstep
      simp only [if_neg h0] at hslow
      -- the direct engine tests the cell again at the start of the loop
      have htest := Source.step_loopOpen (m := ⟨b.world, o', n + 1⟩) hpart
      simp only [if_neg h0] at htest
      exact ⟨t, _, hstep, hstart, 1, n + 2, _, hslow, _, htest, rfl⟩

theorem simulates (hr : p.Renders s) (hp : p.size ≤ wordMax) :
    Simulates s.step p.step (p.Abreast s) Ending.Agrees := by
  rintro a b ⟨n, steps, ht⟩
  refine .after ht ?_
  rcases h : p.code[b.pc]? with _ | i
  · rw [step_halted (Array.getElem?_eq_none_iff.1 h), place_of_none h]
    exact ⟨_, ends_of_halted (Source.step_halted (Nat.le_refl _)), rfl⟩
  rw [place_of_some h]
  rcases hr.exchange hp h steps with ⟨a, ha, hperf⟩ | ⟨k, i', hjump, hk, m, n', htakes⟩
  · rw [ha, act]
    rcases hw : b.world.perform a with ⟨_, w⟩ | ⟨f, w⟩ <;> rw [hw] at hperf
    · obtain ⟨m, n', htakes⟩ := hperf
      exact ⟨m, _, htakes, hr.abreast_stop h ..⟩
    · obtain ⟨f', ⟨w', pc', n'⟩, he, hf, hc⟩ := hperf
      exact ⟨_, he, hf, hc⟩
  · rw [hjump]
    exact ⟨m, _, htakes, hr.abreast_stop hk ..⟩

theorem abreast_start (hr : p.Renders s) (w : World) : p.Abreast s ⟨w, 0, 0⟩ ⟨w, 0, 0⟩ :=
  ⟨_, 0, hr.takes_to_place (Nat.zero_le _) (by simp) w 0⟩

end Renders

end Program

section Whole

variable {engine slow fast : Machine → Step} {config : Config} {ends : Endpoints}

def Machine.entry (config : Config) (ends : Endpoints) : Machine :=
  start (.blank config.heapSize config.heapSize_pos) { ends }

theorem ends_of_conduct {fuel : Nat} {r : Completion × Endpoints}
    (h : conduct (Machine.run engine fuel) config ends = some r) :
    ∃ e, Ends engine (entry config ends) e ∧ conclude e = r := by
  obtain ⟨e, he, hr⟩ := Option.map_eq_some_iff.1 h
  exact ⟨e, ⟨fuel, he⟩, hr⟩

theorem conduct_of_ends {e : Ending} (h : Ends engine (entry config ends) e) :
    ∃ fuel r, conduct (Machine.run engine fuel) config ends = some r := by
  obtain ⟨fuel, hf⟩ := h
  exact ⟨fuel, conclude e, Option.map_eq_some_iff.2 ⟨e, hf, rfl⟩⟩

theorem conduct_agrees {R : Machine → Machine → Prop} (S : Simulates slow fast R Ending.Agrees)
    (h0 : R (entry config ends) (entry config ends)) :
    ((∃ fuel r, conduct (Machine.run slow fuel) config ends = some r)
      ↔ ∃ fuel r, conduct (Machine.run fast fuel) config ends = some r)
    ∧ ∀ fuel fuel' c c' e e', conduct (Machine.run slow fuel) config ends = some (c, e) →
      conduct (Machine.run fast fuel') config ends = some (c', e') → c.Agrees c' ∧ e = e' := by
  refine ⟨⟨?_, ?_⟩, fun fuel fuel' c c' e e' hs hf => ?_⟩
  · rintro ⟨fuel, r, h⟩
    obtain ⟨e, he, -⟩ := ends_of_conduct h
    obtain ⟨e', he', -⟩ := S.ends_of_ends' h0 he
    exact conduct_of_ends he'
  · rintro ⟨fuel, r, h⟩
    obtain ⟨e', he', -⟩ := ends_of_conduct h
    obtain ⟨e, he, -⟩ := S.ends_of_ends h0 he'
    exact conduct_of_ends he
  · obtain ⟨d, hd, hc⟩ := ends_of_conduct hs
    obtain ⟨d', hd', hc'⟩ := ends_of_conduct hf
    obtain ⟨d'', hd'', hagrees⟩ := S.ends_of_ends h0 hd'
    rw [ends_unique hd'' hd] at hagrees
    have := conclude_agrees hagrees
    rwa [hc, hc'] at this

end Whole

namespace Source

theorem checkBalance_of_lower {s : Source} {r : Program × LoweringStats} (h : s.lower = .ok r) :
    s.checkBalance = .ok () := by
  rw [← map_lower, h]
  rfl

theorem checkBalance_of_lower_error {s : Source} {f : Fault} (h : s.lower = .error f) :
    s.checkBalance = .error f := by
  rw [← map_lower, h]
  rfl

theorem lower_of_not_balanced {s : Source} {f : Fault} (h : s.checkBalance = .error f) :
    s.lower = .error f := by
  rw [← map_lower] at h
  rcases hl : s.lower with g | r <;> rw [hl] at h <;> cases h
  rfl

theorem exists_lower {s : Source} (h : s.checkBalance = .ok ()) :
    ∃ p stats, s.lower = .ok (p, stats) := by
  have hm := map_lower s
  rcases hl : s.lower with f | ⟨p, stats⟩
  · rw [hl, h] at hm
    cases hm
  · exact ⟨p, stats, rfl⟩

theorem run_of_balanced {s : Source} (h : s.checkBalance = .ok ()) (fuel : Nat)
    (config : Config) (ends : Endpoints) :
    s.run fuel config ends = conduct (Machine.run s.step fuel) config ends := by
  simp only [run, conduct, execute, h]

theorem run_of_lower {s : Source} {p : Program} {stats : LoweringStats}
    (h : s.lower = .ok (p, stats)) (fuel : Nat) (config : Config) (ends : Endpoints) :
    s.run fuel config ends = conduct (Machine.run s.step fuel) config ends :=
  run_of_balanced (checkBalance_of_lower h) fuel config ends

theorem lowered_agrees {s : Source} {p : Program} {stats : LoweringStats} (hs : s.size ≤ wordMax)
    (h : s.lower = .ok (p, stats)) (config : Config) (ends : Endpoints) :
    ((∃ fuel r, s.run fuel config ends = some r) ↔ ∃ fuel r, p.run fuel config ends = some r)
      ∧ ∀ fuel fuel' c c' e e', s.run fuel config ends = some (c, e) →
        p.run fuel' config ends = some (c', e') → c.Agrees c' ∧ e = e' := by
  have hr := renders_of_lower h
  simp only [run_of_lower h]
  exact conduct_agrees (hr.simulates (Nat.le_trans hr.size_le hs)) (hr.abreast_start _)

end Source

theorem deliver_nil (stalled : IoFailure) (e : Endpoints) :
    e.deliver stalled [] = ⟨[], none, e⟩ := by
  rw [Endpoints.deliver]
  rfl

theorem writeOut_of_pending {c : Channel} (h : c.pending = #[]) : c.writeOut = .ok () c := by
  obtain ⟨ends, pending, read, written⟩ := c
  cases h
  simp only [Channel.writeOut, deliver_nil]

/-- A run that fails at once uses its endpoints for a flush of the sink only. -/
theorem conclude_start (f : Fault) (tape : Tape) (ends : Endpoints) :
    conclude ⟨some f, start tape { ends }⟩ = (.aborted f 0, ends.flushSink.2) := by
  have hw := writeOut_of_pending (c := { ends }) rfl
  have hclose : ∀ e : Endpoints, Channel.close { ends := e } = e := by
    intro e
    simp only [Channel.close, writeOut_of_pending (c := { ends := e }) rfl]
  simp only [conclude, start, Channel.flush, hw]
  rcases hf : ends.flushSink with ⟨_ | g, e⟩
  · simp only [hclose]
  · simp only [hclose]

/-- A source that is not balanced is not begun. -/
theorem Source.run_of_not_balanced {s : Source} {f : Fault} (h : s.checkBalance = .error f)
    (fuel : Nat) (config : Config) (ends : Endpoints) :
    s.run fuel config ends = some (.aborted f 0, ends.flushSink.2) := by
  simp only [run, conduct, execute, h, Option.map_some, conclude_start]

/-- For a source that can be lowered, the two engines come to an end together, and make the same of
their endpoints. For any other, the direct engine fails as lowering does, before it reads or writes.
The length of a source is a word, as that of every buffer is. -/
theorem engines_agree {s : Source} (hs : s.size ≤ wordMax) (config : Config) (ends : Endpoints) :
    (∀ p stats, s.lower = .ok (p, stats) →
      ((∃ fuel r, s.run fuel config ends = some r) ↔ ∃ fuel r, p.run fuel config ends = some r)
      ∧ ∀ fuel fuel' c c' e e', s.run fuel config ends = some (c, e) →
        p.run fuel' config ends = some (c', e') → c.Agrees c' ∧ e = e')
    ∧ ∀ f, s.lower = .error f → ∀ fuel,
      ∃ e, s.run fuel config ends = some (.aborted f 0, e)
        ∧ e.reader = ends.reader ∧ e.sink.accepted = ends.sink.accepted
        ∧ (e.log = ends.log.push .flushed ∨ e.log = ends.log.push .flushFailed) := by
  refine ⟨fun p stats h => ?_, fun f h fuel => ?_⟩
  · have hr := Source.renders_of_lower h
    simp only [Source.run_of_lower h]
    exact conduct_agrees (hr.simulates (Nat.le_trans hr.size_le hs)) (hr.abreast_start _)
  · have hc : s.checkBalance = .error f := by
      rw [← map_lower, h]
      rfl
    refine ⟨ends.flushSink.2, ?_, ?_⟩
    · simp only [Source.run, conduct, Source.execute, hc, Option.map_some, conclude_start]
    · have hsink : ends.sink.flush.2.accepted = ends.sink.accepted := by
        unfold Sink.flush
        split <;> rfl
      unfold Endpoints.flushSink
      split <;> rename_i sink hf <;> rw [hf] at hsink
      · exact ⟨rfl, hsink, .inl rfl⟩
      · exact ⟨rfl, hsink, .inr rfl⟩

/-- Two increments and an output take the one engine three steps and the other two. -/
theorem engines_agree_twice :
    (⟨#[43, 43, 46]⟩ : Source).size ≤ wordMax
      ∧ (⟨#[43, 43, 46]⟩ : Source).lower
        = .ok (⟨#[⟨.act (.add 2), 0⟩, ⟨.act .output, 2⟩]⟩, ⟨3, 2, 1, 0, 0⟩)
      ∧ (∃ fuel r, Program.run ⟨#[⟨.act (.add 2), 0⟩, ⟨.act .output, 2⟩]⟩ fuel ⟨1, .ir, by decide⟩
        (.ofBytes []) = some r)
      ∧ (Completion.finished ⟨⟨#[2], 0, by decide⟩, 3, 0, 1⟩).Agrees
        (.finished ⟨⟨#[2], 0, by decide⟩, 2, 0, 1⟩) := by
  have hs : (⟨#[43, 43, 46]⟩ : Source).size ≤ wordMax := by decide
  have hl : (⟨#[43, 43, 46]⟩ : Source).lower
      = .ok (⟨#[⟨.act (.add 2), 0⟩, ⟨.act .output, 2⟩]⟩, ⟨3, 2, 1, 0, 0⟩) := by cbv
  have hdirect : (⟨#[43, 43, 46]⟩ : Source).run 4 ⟨1, .ir, by decide⟩ (.ofBytes [])
      = some (.finished ⟨⟨#[2], 0, by decide⟩, 3, 0, 1⟩,
        ⟨⟨[.bytes []]⟩, { accepted := #[2] }, #[.wrote 1, .flushed]⟩) := by cbv
  have hlowered : Program.run ⟨#[⟨.act (.add 2), 0⟩, ⟨.act .output, 2⟩]⟩ 3 ⟨1, .ir, by decide⟩
      (.ofBytes []) = some (.finished ⟨⟨#[2], 0, by decide⟩, 2, 0, 1⟩,
        ⟨⟨[.bytes []]⟩, { accepted := #[2] }, #[.wrote 1, .flushed]⟩) := by cbv
  obtain ⟨hends, hagree⟩ := (engines_agree hs ⟨1, .ir, by decide⟩ (.ofBytes [])).1 _ _ hl
  exact ⟨hs, hl, hends.1 ⟨_, _, hdirect⟩, (hagree _ _ _ _ _ _ hdirect hlowered).1⟩

end TapeMachine
