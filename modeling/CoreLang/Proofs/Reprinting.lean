import CoreLang.Proofs.Lines
import CoreLang.Proofs.RoundTrip
import CoreLang.Proofs.Safety

/-!
# Reprinted programs behave alike

The canonical text of a program has the same nodes on other lines. So a session on it
does what a session on the program does, bound by bound: the same bytes are written, and
both end with the same counters, or with the same fault but for its line.
-/

namespace CoreLang

namespace RuntimeError

theorem onLine_onLine (e : RuntimeError) (line line' : Nat) :
    (e.onLine line).onLine line' = e.onLine line' := by
  cases e <;> rfl

/-- Every fault is on the line that it is on. -/
theorem exists_onLine_eq (e : RuntimeError) : ∃ line, e.onLine line = e := by
  cases e with
  | uninitializedVariable name line | unknownVariable name line | inputExhausted line
  | inputNotInteger token line | overflow line | io reason line => exact ⟨line, rfl⟩
  | tree error => exact ⟨0, rfl⟩

end RuntimeError

/-- A session that writes no program text. -/
def silently (source : String) (capacity : Nat) (input : DataStream) (sink : Sink) (steps : Nat) :
    Except (Stop Error) Counters × Sink :=
  interpret source { maxNodes := capacity, print := false } steps input sink

/-- The session came to its end. -/
def Ended (session : Except (Stop Error) Counters × Sink) : Prop :=
  session.1 ≠ .error .unfinished

/-- The sessions left the same output. Both were cut off, both succeeded with the same
counters, or both failed with the same fault but for its line. -/
inductive SessionsAlike : Except (Stop Error) Counters × Sink →
    Except (Stop Error) Counters × Sink → Prop where
  | cut (sink : Sink) : SessionsAlike (.error .unfinished, sink) (.error .unfinished, sink)
  | success (counters : Counters) (sink : Sink) : SessionsAlike (.ok counters, sink) (.ok counters, sink)
  | failure (e : RuntimeError) (line : Nat) (sink : Sink) :
    SessionsAlike (.error (.fault (.runtime e)), sink)
      (.error (.fault (.runtime (e.onLine line))), sink)

theorem SessionsAlike.symm {a b : Except (Stop Error) Counters × Sink} (h : SessionsAlike a b) :
    SessionsAlike b a := by
  cases h with
  | cut sink => exact .cut sink
  | success counters sink => exact .success counters sink
  | failure e line sink =>
    obtain ⟨line', same⟩ := e.exists_onLine_eq
    have := SessionsAlike.failure (e.onLine line) line' sink
    rwa [RuntimeError.onLine_onLine, same] at this

theorem Tree.SameNodes.symm {t t' : Tree} (h : t.SameNodes t') : t'.SameNodes t :=
  ⟨h.nodes.symm, h.root.symm⟩

theorem silently_eq {source : String} {capacity : Nat} {parsed : Parsed}
    (accepted : parse source capacity = .ok parsed) (input : DataStream) (sink : Sink)
    (steps : Nat) : silently source capacity input sink steps = parsed.runOnce steps input sink := by
  simp only [silently, interpret, accepted, Parsed.perform, Bool.false_eq_true, if_false]

namespace Parsed

variable {parsed again : Parsed} {source : String} {capacity steps steps' : Nat} {early : Prop}

theorem runOnce_alike (accepted : parse source capacity = .ok parsed)
    (same : parsed.tree.SameNodes again.tree) (symbols : again.symbols = parsed.symbols)
    (bounds : Bounds early steps steps') (input : DataStream) (sink : Sink) :
    SessionsAlike (parsed.runOnce steps input sink) (again.runOnce steps' input sink) ∨
      early ∧ ¬ Ended (parsed.runOnce steps input sink) := by
  have inStep := same.run_inStep bounds (.start parsed.symbols input sink)
  unfold runOnce execute
  rw [symbols]
  generalize ran : parsed.tree.run steps (.start parsed.symbols input sink) = r at inStep ⊢
  generalize again.tree.run steps' (.start parsed.symbols input sink) = r' at inStep ⊢
  cases inStep with
  | ok a m => exact .inl (.success m.counters m.sink)
  | cut allowed m r => exact .inr ⟨allowed, fun ended => ended rfl⟩
  | error alike m =>
    left
    cases alike with
    | fault e line => exact .failure e line m.sink
    | same stop =>
      rcases run_error accepted rfl ran with rfl | ⟨e, rfl, -⟩
      · exact .cut m.sink
      · obtain ⟨line, here⟩ := e.exists_onLine_eq
        have := SessionsAlike.failure e line m.sink
        rwa [here] at this

end Parsed

/-- Sessions on the two texts do the same: in step under every bound, and if they come to
their ends under bounds of their own. -/
structure BehaveAlike (source text : String) (capacity : Nat) (input : DataStream) (sink : Sink) :
    Prop where
  inStep : ∀ steps, SessionsAlike (silently source capacity input sink steps)
    (silently text capacity input sink steps)
  ends_iff : (∃ steps, Ended (silently source capacity input sink steps)) ↔
    ∃ steps, Ended (silently text capacity input sink steps)
  ends : ∀ steps steps', Ended (silently source capacity input sink steps) →
    Ended (silently text capacity input sink steps') →
      SessionsAlike (silently source capacity input sink steps)
        (silently text capacity input sink steps')

theorem SessionsAlike.ended_iff {a b : Except (Stop Error) Counters × Sink}
    (h : SessionsAlike a b) : Ended a ↔ Ended b := by
  cases h <;> simp [Ended]

/-- Two parses with the same nodes and symbols behave alike. -/
theorem behaveAlike_of_sameNodes {source text : String} {capacity : Nat} {parsed again : Parsed}
    (accepted : parse source capacity = .ok parsed) (accepted' : parse text capacity = .ok again)
    (same : parsed.tree.SameNodes again.tree) (symbols : again.symbols = parsed.symbols)
    (input : DataStream) (sink : Sink) : BehaveAlike source text capacity input sink := by
  have inStep (steps : Nat) : SessionsAlike (silently source capacity input sink steps)
      (silently text capacity input sink steps) := by
    rw [silently_eq accepted, silently_eq accepted']
    rcases Parsed.runOnce_alike accepted same symbols (.inl rfl : Bounds False steps steps) input
      sink with alike | ⟨absurd, -⟩
    · exact alike
    · exact absurd.elim
  refine ⟨inStep, ?_, ?_⟩
  · exact exists_congr fun steps => (inStep steps).ended_iff
  · intro steps steps' ended ended'
    rw [silently_eq accepted] at ended ⊢
    rw [silently_eq accepted'] at ended' ⊢
    -- the run with the smaller bound came to its end, so the other one did the same
    rcases Nat.le_total steps steps' with more | more
    · rcases Parsed.runOnce_alike accepted same symbols (.inr ⟨trivial, more⟩) input sink with
        alike | ⟨-, cut⟩
      · exact alike
      · exact absurd ended cut
    · rcases Parsed.runOnce_alike accepted' same.symm symbols.symm (.inr ⟨trivial, more⟩) input
        sink with alike | ⟨-, cut⟩
      · exact alike.symm
      · exact absurd ended' cut

/-- A parsed program is printed, and the text behaves like the program: on any data, with
any output, both sessions come to an end or neither does, they write the same bytes, and
they end with the same counters or with the same fault but for the line it is on. -/
theorem reprinted_behaveAlike {source : String} {capacity : Nat} {parsed : Parsed}
    (accepted : parse source capacity = .ok parsed) :
    ∃ text, parsed.tree.render parsed.symbols = .ok text ∧
      ∀ input sink, BehaveAlike source text capacity input sink := by
  obtain ⟨d, p, derives, fitting, shows⟩ := parse_sound accepted
  have derives' := shows.derives_render fitting.named derives
  obtain ⟨again, q, accepted', shows'⟩ := exists_parse derives' fitting shows.size_le_limit
  obtain ⟨nodes, root⟩ := shows.nodes_eq shows'
  exact ⟨_, shows.render_eq fitting.named, fun input sink =>
    behaveAlike_of_sameNodes accepted accepted' ⟨nodes, root⟩ (shows.symbols_eq shows') input sink⟩

theorem reprinted_behaveAlike_countdown :
    ∃ parsed, parse "program int N;
begin
read N; while (N!=0)
loop write N; N=N-1; end; end" 60
        = .ok parsed ∧
      ∃ text, parsed.tree.render parsed.symbols = .ok text ∧
        ∀ input sink, BehaveAlike
          "program int N;
begin
read N; while (N!=0)
loop write N; N=N-1; end; end" text 60
          input sink := by
  obtain ⟨parsed, accepted⟩ := exists_parsed
    "program int N;
begin
read N; while (N!=0)
loop write N; N=N-1; end; end" 60
    (by decide +kernel)
  exact ⟨parsed, accepted, reprinted_behaveAlike accepted⟩

end CoreLang
