import Kfx.Stage.Build
import Kfx.Proofs.Log

/-!
# Builds whose compiler is a plain function

A stage is built exactly when it has code and the compiler answers that code with words, and a build
that succeeds has changed nothing but the words of the stages.
-/
namespace Kfx

theorem Answer.toWords_eq_ok {answer : Answer} {limit : Option Duration} {pass : String}
    {index : Nat} {kind : StageKind} {code : List UInt32} :
    answer.toWords limit pass index kind = .ok code ↔ answer = .words code := by
  cases answer <;> cases limit <;> simp [Answer.toWords]

def Stage.bare (s : Stage) : Stage := { s with bytecode := [] }

def Pass.bare (p : Pass) : Pass := { p with stages := p.stages.map Stage.bare }

def Effect.bare (e : Effect) : Effect := { e with passes := e.passes.map Pass.bare }

section

variable {ctx : BuildContext Id} {e : Effect} {pass : String}

/-- A stage is built by asking the compiler for the words of its code. -/
theorem Stage.result_build_eq_ok {index : Nat} {s built : Stage} :
    (s.build ctx e pass index).outcome.result = .ok built ↔
      ∃ fragment code, s.code? e = some fragment ∧
        ctx.compiler (s.request e ctx.entryPoint fragment) ctx.includes = .words code ∧
        built = { s with bytecode := s.bytecode ++ code } := by
  unfold Stage.build
  cases hcode : s.code? e with
  | none =>
    constructor
    · intro h
      cases h
    · rintro ⟨fragment, code, hfragment, _⟩
      cases hfragment
  | some fragment =>
    constructor
    · intro h
      obtain ⟨_, _, hrest⟩ := LoggedT.result_bind_eq_ok.mp h
      obtain ⟨answer, hanswer, hwords⟩ := LoggedT.result_bind_eq_ok.mp hrest
      cases hanswer
      split at hwords
      · cases hwords
      · rename_i code hok
        cases hwords
        exact ⟨fragment, code, rfl, Answer.toWords_eq_ok.mp hok, rfl⟩
    · rintro ⟨_, code, hfragment, hanswer, rfl⟩
      cases hfragment
      refine LoggedT.result_bind_eq_ok.mpr ⟨(), rfl, ?_⟩
      refine LoggedT.result_bind_eq_ok.mpr ⟨.words code, congrArg Except.ok hanswer, ?_⟩
      rw [Answer.toWords_eq_ok.mpr rfl]
      rfl

theorem Stage.bare_of_build {index : Nat} {s built : Stage}
    (h : (s.build ctx e pass index).outcome.result = .ok built) : built.bare = s.bare := by
  obtain ⟨_, _, _, _, rfl⟩ := Stage.result_build_eq_ok.mp h
  rfl

theorem bare_of_buildStages {index : Nat} {stages built : List Stage}
    (h : (buildStages ctx e pass index stages).outcome.result = .ok built) :
    built.map Stage.bare = stages.map Stage.bare := by
  induction stages generalizing index built with
  | nil =>
    cases h
    rfl
  | cons s rest ih =>
    obtain ⟨first, hfirst, htail⟩ := LoggedT.result_bind_eq_ok.mp h
    obtain ⟨others, hothers, hok⟩ := LoggedT.result_bind_eq_ok.mp htail
    cases hok
    rw [List.map_cons, List.map_cons, Stage.bare_of_build hfirst, ih hothers]

theorem bare_of_buildPasses {passes built : List Pass}
    (h : (buildPasses ctx e passes).outcome.result = .ok built) :
    built.map Pass.bare = passes.map Pass.bare := by
  induction passes generalizing built with
  | nil =>
    cases h
    rfl
  | cons p rest ih =>
    obtain ⟨stages, hstages, htail⟩ := LoggedT.result_bind_eq_ok.mp h
    obtain ⟨others, hothers, hok⟩ := LoggedT.result_bind_eq_ok.mp htail
    cases hok
    have hp : Pass.bare { p with stages } = p.bare := by
      simp only [Pass.bare, bare_of_buildStages hstages]
    rw [List.map_cons, List.map_cons, hp, ih hothers]

/-- A build changes nothing but the words of the stages. -/
theorem Effect.bare_of_build {built : Effect}
    (h : (e.build ctx).outcome.result = .ok built) : built.bare = e.bare := by
  obtain ⟨passes, hpasses, hok⟩ := LoggedT.result_bind_eq_ok.mp h
  cases hok
  simp only [Effect.bare, bare_of_buildPasses hpasses]

end

end Kfx
