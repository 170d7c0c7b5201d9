import Mathlib.Algebra.GroupWithZero.Nat
import TapeMachine.Proofs.Bare
import TapeMachine.Proofs.SourceMap

/-!
# Counters

A draft counts the lexemes it is fed (`Draft.Counts.feedAll`), each at its own place in the code
that feeds it. A lowered program has the lexemes of its source, so its counters say what it is made
of (`describes_of_lower`). A compiler keeps the counters of the last source that it lowered, and
nothing else (`stats_compileAll`).
-/

namespace TapeMachine

/-- Stands for more than one symbol of one kind. -/
def Lexeme.isMerged : Lexeme → Bool
  | act a => a.count?.any (1 < ·)
  | loopOpen | loopClose => false

namespace Opcode

def isLoopEnd : Opcode → Bool
  | loopEnd _ => true
  | _ => false

/-- Carries a repeat count of more than one. -/
def isMerged (op : Opcode) : Bool := op.isCounted && op.operand?.any (1 < ·)

/-- How many symbols an opcode stands for. -/
def width : Opcode → Nat
  | act (.add n) | act (.sub n) | act (.right n) | act (.left n) => n
  | act .clear => 3
  | act .output | act .input | loopStart _ | loopEnd _ => 1

theorem length_text (op : Opcode) : op.text.length = op.width := by
  rcases op with ⟨a⟩ | t | t
  · cases a <;> simp [text, Action.text, width]
  · rfl
  · rfl

theorem isMerged_lexeme (op : Opcode) : op.lexeme.isMerged = op.isMerged := by
  rcases op with ⟨a⟩ | t | t
  · cases a <;> rfl
  · rfl
  · rfl

theorem lexeme_eq_clear_iff {op : Opcode} : op.lexeme = .act .clear ↔ op = .act .clear := by
  cases op <;> simp [lexeme]

theorem lexeme_eq_loopOpen_iff {op : Opcode} : op.lexeme = .loopOpen ↔ op.isLoopStart := by
  cases op <;> simp [lexeme, isLoopStart]

theorem lexeme_eq_loopClose_iff {op : Opcode} : op.lexeme = .loopClose ↔ op.isLoopEnd := by
  cases op <;> simp [lexeme, isLoopEnd]

end Opcode

namespace Draft

/-- What the counters of a draft tell of the lexemes that it was fed. A loop that is open has not
been counted yet. -/
structure Counts (d : Draft) (ls : List Lexeme) : Prop where
  mergedRuns : d.mergedRuns = ls.countP Lexeme.isMerged
  clears : d.clears = ls.count (.act .clear)
  closed : d.loops = ls.count .loopClose
  opened : d.opened.length + d.loops = ls.count .loopOpen

theorem tally_eq (d : Draft) (a : Action) :
    d.tally a = { d with
      mergedRuns := d.mergedRuns + if (Lexeme.act a).isMerged then 1 else 0
      clears := d.clears + if a = .clear then 1 else 0 } := by
  unfold tally Lexeme.isMerged
  cases a with
  | add n | sub n | right n | left n =>
    simp only [Action.count?, Option.any_some, decide_eq_true_eq, reduceCtorEq, if_false]
    split <;> rfl
  | clear | output | input => simp [Action.count?]

namespace Counts

variable {d d' : Draft} {ls : List Lexeme}

theorem empty : Counts {} [] := ⟨rfl, rfl, rfl, rfl⟩

theorem feed (hd : d.Counts ls) {p : Placed} (hf : d.feed p = .ok d') :
    d'.Counts (ls ++ [p.lexeme]) := by
  obtain ⟨hmerged, hclears, hclosed, hopened⟩ := hd
  obtain ⟨l, o⟩ := p
  cases l with
  | act a =>
    cases hf
    rw [tally_eq]
    refine ⟨?_, ?_, by simpa [emit] using hclosed, by simpa [emit] using hopened⟩
    · rw [List.countP_append, List.countP_singleton, ← hmerged]
      rfl
    · simp [emit, hclears, List.count_singleton]
  | loopOpen =>
    cases hf
    have hlen : d.opened.length + 1 + d.loops = ls.count .loopOpen + 1 := by omega
    exact ⟨by simpa [Lexeme.isMerged] using hmerged, by simpa using hclears,
      by simpa using hclosed, by simpa using hlen⟩
  | loopClose =>
    unfold Draft.feed at hf
    rcases ho : d.opened with _ | ⟨⟨start, o'⟩, outer⟩ <;> rw [ho] at hf hopened <;> cases hf
    have hlen : outer.length + (d.loops + 1) = ls.count .loopOpen := by
      rw [← hopened, List.length_cons]
      omega
    exact ⟨by simpa [Lexeme.isMerged] using hmerged, by simpa using hclears,
      by simpa using hclosed, by simpa using hlen⟩

theorem feedAll : ∀ {ps : List Placed} {d : Draft} {ls : List Lexeme}, d.Counts ls →
    d.feedAll ps = .ok d' → d'.Counts (ls ++ ps.map Placed.lexeme)
  | [], d, ls, hd, hf => by
    cases hf
    simpa using hd
  | p :: ps, d, ls, hd, hf => by
    rw [Draft.feedAll] at hf
    split at hf
    · rename_i d1 hf1
      have := feedAll (hd.feed hf1) hf
      simpa using this
    · cases hf

end Counts

end Draft

/-- Counters that tell what a program is made of, and what it was lowered from. -/
structure LoweringStats.Describes (stats : LoweringStats) (s : Source) (p : Program) : Prop where
  sourceSize : stats.sourceSize = s.size
  instructions : stats.instructions = p.size
  mergedRuns : stats.mergedRuns = p.opcodes.countP Opcode.isMerged
  clears : stats.clears = p.opcodes.count (.act .clear)
  loops : stats.loops = p.numLoops
  loopEnds : stats.loops = p.opcodes.countP Opcode.isLoopEnd
  width : (p.opcodes.map Opcode.width).sum = s.bytes.countP isSymbol

namespace Program.Renders

variable {p : Program} {s : Source}

theorem map_lexeme (h : p.Renders s) :
    p.opcodes.map Opcode.lexeme = s.lexemes.map Placed.lexeme := by
  rw [← h.placed, opcodes, List.map_map, List.map_map]
  rfl

theorem sum_width (h : p.Renders s) :
    (p.opcodes.map Opcode.width).sum = s.bytes.countP isSymbol := by
  have hlen := congrArg List.length h.flatMap_text
  rw [List.length_flatMap] at hlen
  simp only [Opcode.length_text] at hlen
  rw [hlen, ← List.countP_eq_length_filter, ← Array.countP_toList]
  rfl

theorem describes (h : p.Renders s) {d : Draft} (hd : d.Counts (s.lexemes.map Placed.lexeme))
    (ho : d.opened = []) :
    LoweringStats.Describes ⟨s.size, p.size, d.mergedRuns, d.clears, d.loops⟩ s p := by
  obtain ⟨hmerged, hclears, hclosed, hopened⟩ := hd
  rw [← h.map_lexeme] at hmerged hclears hclosed hopened
  rw [ho, List.length_nil, Nat.zero_add] at hopened
  refine ⟨rfl, rfl, hmerged.trans ?_, hclears.trans ?_, hopened.trans ?_, hclosed.trans ?_,
    h.sum_width⟩
  · rw [List.countP_map]
    exact List.countP_congr fun op _ => by simp [Opcode.isMerged_lexeme]
  · rw [List.count, List.countP_map]
    exact List.countP_congr fun op _ => by simp [Opcode.lexeme_eq_clear_iff]
  · rw [List.count, List.countP_map]
    exact List.countP_congr fun op _ => by simp [Opcode.lexeme_eq_loopOpen_iff]
  · rw [List.count, List.countP_map]
    exact List.countP_congr fun op _ => by simp [Opcode.lexeme_eq_loopClose_iff]

end Program.Renders

theorem describes_of_lowerBytes {s : Source} {p : Program} {stats : LoweringStats}
    (h : s.lowerBytes = .ok (p, stats)) : stats.Describes s p := by
  have hr := Source.renders_of_lowerBytes h
  unfold Source.lowerBytes at h
  split at h
  · rename_i d hd
    have hcounts := Draft.Counts.empty.feedAll hd
    unfold Draft.finish at h
    split at h
    · cases h
    · rename_i ho
      cases h
      exact hr.describes hcounts ho
  · cases h

theorem describes_of_lower {s : Source} {p : Program} {stats : LoweringStats}
    (h : s.lower = .ok (p, stats)) : stats.Describes s p := by
  unfold Source.lower at h
  rcases hl : s.lowerBytes with e | ⟨q, stats'⟩ <;> rw [hl] at h <;> cases h
  exact describes_of_lowerBytes hl

namespace Compiler

/-- One source after the other. -/
def compileAll (c : Compiler) (sources : List Source) : Compiler :=
  sources.foldl (fun c s => (c.compile s).2) c

/-- What came of the sources that could be lowered, in their order. -/
def lowered (sources : List Source) : List (Program × LoweringStats) :=
  sources.filterMap fun s => s.lower.toOption

variable {c : Compiler} {s : Source}

theorem fst_compile (c : Compiler) (s : Source) : (c.compile s).1 = s.lower.map Prod.fst := by
  unfold compile
  rcases s.lower with f | ⟨p, stats⟩ <;> rfl

theorem compile_of_lower {p : Program} {stats : LoweringStats} (h : s.lower = .ok (p, stats)) :
    c.compile s = (.ok p, ⟨stats⟩) := by
  rw [compile, h]

theorem compile_of_lower_error {f : Fault} (h : s.lower = .error f) :
    c.compile s = (.error f, c) := by
  rw [compile, h]

theorem stats_compileAll (c : Compiler) : ∀ sources : List Source,
    (c.compileAll sources).stats = ((lowered sources).getLast?.map Prod.snd).getD c.stats
  | [] => rfl
  | s :: sources => by
    have ih := stats_compileAll (c.compile s).2 sources
    show ((c.compile s).2.compileAll sources).stats = _
    rw [ih, lowered, lowered, List.filterMap_cons]
    rcases hl : s.lower with f | ⟨p, stats⟩
    · rw [compile_of_lower_error hl]
      rfl
    · rw [compile_of_lower hl]
      simp only [Except.toOption]
      rw [List.getLast?_cons]
      rcases List.getLast? _ with _ | r <;> rfl

/-- Whatever a compiler was given before, what it makes of a source is what the source lowers to.
When that is a program, its counters tell what the program is made of, and otherwise they stay what
they were: those of the last source that was lowered, or zero when there was none. -/
theorem counters_describe (sources : List Source) (s : Source) :
    let c := compileAll {} sources
    ((∀ p, (c.compile s).1 = .ok p → (c.compile s).2.stats.Describes s p)
      ∧ ∀ f, (c.compile s).1 = .error f → (c.compile s).2.stats = c.stats)
    ∧ c.stats = ((lowered sources).getLast?.map Prod.snd).getD {}
    ∧ (c.compile s).1 = s.lower.map Prod.fst := by
  intro c
  refine ⟨⟨fun p hp => ?_, fun f hf => ?_⟩, stats_compileAll {} sources, c.fst_compile s⟩
  · rcases hl : s.lower with f | ⟨q, stats⟩
    · rw [compile_of_lower_error hl] at hp
      cases hp
    · rw [compile_of_lower hl] at hp ⊢
      cases hp
      exact describes_of_lower hl
  · rcases hl : s.lower with f' | ⟨q, stats⟩
    · rw [compile_of_lower_error hl]
    · rw [compile_of_lower hl] at hf
      cases hf

/-- A source that is rejected leaves the counters of the one before. -/
example : (compileAll {} [⟨#[43, 43]⟩, ⟨#[91, 45, 93]⟩, ⟨#[43, 91]⟩]).stats = ⟨3, 1, 0, 1, 0⟩ := by
  cbv

end Compiler

end TapeMachine
