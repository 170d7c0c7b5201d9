import TapeMachine.CommandLine.Options

/-!
# What holds of parsed options

What holds of the options to begin with and is kept by every switch and by the operand, holds of
whatever a command line is parsed to (`Grammar.holds_of_parse`). A value that is kept back is
understood later, so until then it has to be known that its switch keeps the property
(`Progress.Holds`).
-/

namespace TapeMachine.CommandLine

variable {σ : Type} {P : σ → Prop}

/-- Where a value is accepted, `P` is kept. -/
def Preserves (P : σ → Prop) (apply : String → σ → Except Refusal σ) : Prop :=
  ∀ value o o', P o → apply value o = .ok o' → P o'

def Effect.Keeps (P : σ → Prop) : Effect σ → Prop
  | .flag apply | .counter apply => ∀ o, P o → P (apply o)
  | .value _ apply => Preserves P apply
  | .help | .version => True

structure Grammar.Keeps (g : Grammar σ) (P : σ → Prop) : Prop where
  initial : P g.initial
  switches : ∀ s ∈ g.switches, s.effect.Keeps P
  operand : Preserves P g.operand.apply

/-- `P` holds, and the value that is kept back will not change that. -/
structure Progress.Holds (P : σ → Prop) (p : Progress σ) : Prop where
  options : P p.options
  pending : ∀ display apply given, p.pending = .value display apply given → Preserves P apply

namespace Progress

variable {p q : Progress σ} {display value : String} {apply : String → σ → Except Refusal σ}

theorem Holds.of_nothing (ho : P p.options) (hp : p.pending = .nothing) : p.Holds P where
  options := ho
  pending := by simp [hp]

@[simp]
theorem options_see (p : Progress σ) (display : String) : (p.see display).options = p.options := by
  unfold see
  split <;> rfl

@[simp]
theorem pending_see (p : Progress σ) (display : String) : (p.see display).pending = p.pending := by
  unfold see
  split <;> rfl

theorem Holds.take (ha : Preserves P apply) (h : p.Holds P)
    (hq : p.take display value apply = .ok q) : q.Holds P := by
  unfold Progress.take at hq
  rcases hv : apply value p.options with (_ | _ | _) | o <;> simp only [hv] at hq <;> cases hq
  exact ⟨by simpa using ha _ _ _ h.options hv, by simpa using h.pending⟩

theorem Holds.takeOnce (ha : Preserves P apply) (h : p.Holds P)
    (hq : p.takeOnce display value apply = .ok q) : q.Holds P := by
  unfold Progress.takeOnce at hq
  split at hq
  · cases hq
  · exact h.take ha hq

theorem Holds.give (h : p.Holds P) (value : String) : (p.give value).Holds P := by
  unfold Progress.give
  split
  · rename_i display apply hp
    refine ⟨h.options, fun display' apply' given hpending => ?_⟩
    cases hpending
    exact h.pending _ _ _ hp
  · exact h

theorem Holds.takeAll (ha : Preserves P apply) : ∀ {values : List String} {p q : Progress σ},
    p.Holds P → takeAll display apply values p = .ok q → q.Holds P
  | [], p, q, h, hq => by
    cases hq
    exact h
  | value :: values, p, q, h, hq => by
    rw [Progress.takeAll] at hq
    split at hq
    · rename_i p' hp'
      exact Holds.takeAll ha (h.take ha hp') hq
    · cases hq

end Progress

namespace Grammar

variable {g : Grammar σ} {p q : Progress σ}

theorem holds_settle (hg : g.Keeps P) (h : p.Holds P) (hq : g.settle p = .ok q) : q.Holds P := by
  have hnothing : ({ p with pending := .nothing } : Progress σ).Holds P :=
    .of_nothing h.options rfl
  rcases hp : p.pending with _ | ⟨display, apply, _ | given⟩ | values <;>
    simp only [settle, hp] at hq
  · cases hq
    exact hnothing
  · cases hq
  · exact hnothing.takeOnce (h.pending _ _ _ hp) hq
  · exact hnothing.takeAll hg.operand hq

theorem holds_react {s : Switch σ} (hg : g.Keeps P) (hs : s ∈ g.switches) (h : p.Holds P)
    (hq : g.react p s = .ok q) : q.Holds P := by
  have heffect := hg.switches s hs
  unfold react at hq
  rcases hsettle : g.settle p with e | r <;> simp only [hsettle] at hq
  · cases hq
  have hr := holds_settle hg h hsettle
  rcases he : s.effect with apply | apply | ⟨name, apply⟩ | _ | _ <;> simp only [he] at hq heffect
  · split at hq <;> cases hq
    exact ⟨by simpa using heffect _ hr.options, by simpa using hr.pending⟩
  · cases hq
    exact ⟨by simpa using heffect _ hr.options, by simpa using hr.pending⟩
  · cases hq
    refine ⟨hr.options, fun display apply' given hpending => ?_⟩
    cases hpending
    exact heffect
  · cases hq
  · cases hq

theorem holds_reactWith {s : Switch σ} {value : String} (hg : g.Keeps P) (hs : s ∈ g.switches)
    (h : p.Holds P) (hq : g.reactWith p s value = .ok q) : q.Holds P := by
  have heffect := hg.switches s hs
  unfold reactWith at hq
  rcases he : s.effect with apply | apply | ⟨name, apply⟩ | _ | _ <;> simp only [he] at hq heffect
  case value =>
    rcases hsettle : g.settle p with e | r <;> simp only [hsettle] at hq
    · cases hq
    · exact (holds_settle hg h hsettle).takeOnce heffect hq
  all_goals cases hq

theorem holds_long {body : List Char} (hg : g.Keeps P) (h : p.Holds P)
    (hq : g.long p body = .ok q) : q.Holds P := by
  simp only [long] at hq
  split at hq
  · cases hq
  · rename_i s hs _
    exact holds_react hg (List.mem_of_find?_eq_some hs) h hq
  · rename_i s _ value hs _
    exact holds_reactWith hg (List.mem_of_find?_eq_some hs) h hq

theorem holds_cluster (hg : g.Keeps P) : ∀ {cs : List Char} {p q : Progress σ}, p.Holds P →
    g.cluster p cs = .ok q → q.Holds P
  | [], p, q, h, hq => by
    cases hq
    exact h
  | c :: rest, p, q, h, hq => by
    rw [cluster] at hq
    rcases hfind : g.switches.find? (·.short = some c) with _ | s <;> simp only [hfind] at hq
    · cases hq
    have hs := List.mem_of_find?_eq_some hfind
    split at hq
    · exact holds_reactWith hg hs h hq
    · exact holds_reactWith hg hs h hq
    · split at hq
      · rename_i p' hp'
        exact holds_cluster hg (holds_react hg hs h hp') hq
      · cases hq

theorem holds_addOperand {value : String} (hg : g.Keeps P) (h : p.Holds P)
    (hq : g.addOperand p value = .ok q) : q.Holds P := by
  unfold addOperand at hq
  split at hq
  · cases hq
  split at hq
  · cases hq
    exact ⟨h.options, by simp⟩
  · rcases hsettle : g.settle p with e | r <;> rw [hsettle] at hq <;> cases hq
    exact ⟨(holds_settle hg h hsettle).options, by simp⟩

theorem map_eq_ok {ε α β : Type} {x : Except ε α} {f : α → β} {b : β} (h : x.map f = .ok b) :
    ∃ a, x = .ok a ∧ f a = b := by
  rcases x with e | a
  · cases h
  · exact ⟨a, rfl, Except.ok.inj h⟩

theorem holds_readArguments (hg : g.Keeps P) : ∀ {args : List String} {only : Bool}
    {p q : Progress σ}, p.Holds P → g.readArguments only p args = .ok q → q.Holds P
  | [], only, p, q, h, hq => holds_settle hg h hq
  | arg :: rest, only, p, q, h, hq => by
    simp only [readArguments] at hq
    split at hq
    · rename_i p' only' hnext
      refine holds_readArguments hg ?_ hq
      split at hnext
      · obtain ⟨r, hr, hpair⟩ := map_eq_ok hnext
        cases hpair
        exact holds_addOperand hg h hr
      split at hnext
      · cases hnext
        exact h
      · obtain ⟨r, hr, hpair⟩ := map_eq_ok hnext
        cases hpair
        exact holds_long hg h hr
      · obtain ⟨r, hr, hpair⟩ := map_eq_ok hnext
        cases hpair
        exact holds_cluster hg h hr
      · split at hnext
        · cases hnext
          exact h.give arg
        · obtain ⟨r, hr, hpair⟩ := map_eq_ok hnext
          cases hpair
          exact holds_addOperand hg h hr
    · cases hq

/-- What every switch and the operand keep holds of the options that are parsed. -/
theorem holds_of_parse {args : List String} {o : σ} (hg : g.Keeps P) (h : g.parse args = .ok o) :
    P o := by
  unfold parse at h
  split at h
  · cases h
  · rename_i p hp
    rcases hc : g.checkConflicts p.seen p.seen with e | _ <;> rw [hc] at h <;> cases h
    exact (holds_readArguments hg (.of_nothing hg.initial rfl) hp).options

end Grammar

namespace Options

theorem readHeapSize_pos {text : String} {n : Nat} (h : readHeapSize text = .ok n) : 0 < n := by
  unfold readHeapSize at h
  split at h <;> cases h
  rename_i hne _
  exact Nat.pos_of_ne_zero hne

theorem keeps_heapSize_pos : grammar.Keeps fun o => 0 < o.heapSize where
  initial := by decide
  switches := by
    have hsame : ∀ {f : String → Options → Except Refusal Options},
        (∀ value o o', f value o = .ok o' → o'.heapSize = o.heapSize) →
        Preserves (fun o => 0 < o.heapSize) f :=
      fun hf value o o' ho h => Nat.lt_of_lt_of_eq ho (hf value o o' h).symm
    simp only [grammar, switches, commonSwitches, List.cons_append, List.nil_append,
      List.forall_mem_cons, List.not_mem_nil, false_implies, implies_true, and_true]
    refine ⟨hsame ?_, hsame ?_, ?_, fun o ho => ho, fun o ho => ho, fun o ho => ho, fun o ho => ho,
      trivial, trivial⟩
    · rintro value o o' h
      cases h
      rfl
    · rintro value o o' h
      obtain ⟨level, -, rfl⟩ := Grammar.map_eq_ok h
      rfl
    · rintro value o o' - h
      obtain ⟨n, hn, rfl⟩ := Grammar.map_eq_ok h
      exact readHeapSize_pos hn
  operand := by
    intro path o o' ho h
    simp only [grammar, fileOperand] at h
    split at h <;> cases h
    exact ho

/-- A tape without cells cannot be asked for. -/
theorem heapSize_pos_of_parse {args : List String} {o : Options} (h : Options.parse args = .ok o) :
    0 < o.heapSize :=
  Grammar.holds_of_parse (P := fun o : Options => 0 < o.heapSize) keeps_heapSize_pos h

end Options

end TapeMachine.CommandLine
