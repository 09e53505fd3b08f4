import HorizonProtocol.CausalStore.Maximal

/-!
# The frontier of the log

Over any ordering, transitive or not, an admitted write retires exactly the frontier events of its
key that it comes after. So the frontier of a key can be read off the log: it is the events that no
later event of the key comes after.

* `mem_frontier_iff_current` — the frontier after any run.
-/

namespace HorizonProtocol.CausalStore

variable {Id Key Value Origin Clock W : Type} [DecidableEq Id] [DecidableEq Key]
variable {sha : HashInput Key Value Origin Clock → Id}
variable {o : Ordering (Body Key Value Origin Clock) W}
variable {s : CausalStore Id Key Value Origin Clock}
variable {c : WriteCall Id Key Value Origin Clock}

/-- No later body of the key comes after `b`. -/
def Current (o : Ordering (Body Key Value Origin Clock) W)
    (log : List (Body Key Value Origin Clock)) (b : Body Key Value Origin Clock) : Prop :=
  ∃ pre post, log = pre ++ b :: post ∧ ∀ g ∈ post, g.key = b.key → ¬ o.Before b g

omit [DecidableEq Key] in
theorem Current.concat_iff {log : List (Body Key Value Origin Clock)}
    {b new : Body Key Value Origin Clock} :
    Current o (log ++ [new]) b ↔
      b = new ∨ Current o log b ∧ (new.key = b.key → ¬ o.Before b new) := by
  constructor
  · rintro ⟨pre, post, hlog, hpost⟩
    rcases Log.concat_eq_split_iff.mp hlog with ⟨-, hb, -⟩ | ⟨post, hold, rfl⟩
    · exact Or.inl hb
    · rw [List.forall_mem_append, List.forall_mem_singleton] at hpost
      exact Or.inr ⟨⟨pre, post, hold, hpost.1⟩, hpost.2⟩
  · rintro (rfl | ⟨⟨pre, post, rfl, hpost⟩, hlast⟩)
    · exact ⟨log, [], rfl, by simp⟩
    · refine ⟨pre, post ++ [new], by simp, ?_⟩
      rw [List.forall_mem_append, List.forall_mem_singleton]
      exact ⟨hpost, hlast⟩

/-- The bodies of the log. -/
def bodies (s : CausalStore Id Key Value Origin Clock) : List (Body Key Value Origin Clock) :=
  s.backend.allEvents.map (·.toBody)

/-- The frontier of every key is what is current in the log. -/
def FrontierCurrent (sha : HashInput Key Value Origin Clock → Id)
    (o : Ordering (Body Key Value Origin Clock) W) (s : CausalStore Id Key Value Origin Clock) :
    Prop :=
  ∀ key b, (∃ e ∈ s.frontier sha key, e.toBody = b) ↔ b.key = key ∧ Current o s.bodies b

theorem FrontierCurrent.empty :
    FrontierCurrent sha o ({} : CausalStore Id Key Value Origin Clock) := by
  intro key b
  constructor
  · rintro ⟨e, he, -⟩
    exact absurd he List.not_mem_nil
  · rintro ⟨-, pre, post, hlog, -⟩
    have hlen := congrArg List.length hlog
    simp [bodies] at hlen

theorem FrontierCurrent.commit {sup : List Id} (coordinated : Bool) (hinv : Inv sha o s)
    (h : FrontierCurrent sha o s)
    (fresh : ∀ e ∈ s.backend.allEvents, e.eventId sha ≠ c.eventId sha)
    (valid : ∀ p ∈ c.claims, ValidClaim sha o s c.toBody p)
    (edges : Supersedes sha o s c sup) :
    FrontierCurrent sha o (s.countTotal.commit coordinated ⟨c.toBody, sup⟩) := by
  intro key b
  have hbodies : (s.countTotal.commit coordinated ⟨c.toBody, sup⟩).bodies =
      s.bodies ++ [c.toBody] := by
    simp [bodies]
  rw [hbodies, Current.concat_iff]
  constructor
  · rintro ⟨e, he, rfl⟩
    rcases (mem_frontier_commit coordinated hinv fresh valid edges key e).mp he with
      ⟨rfl, hkey⟩ | ⟨hold, hlast⟩
    · exact ⟨hkey, Or.inl rfl⟩
    · obtain ⟨hkey, hcur⟩ := (h key e.toBody).mp ⟨e, hold, rfl⟩
      exact ⟨hkey, Or.inr ⟨hcur, fun hck => hlast (hck.trans hkey)⟩⟩
  · rintro ⟨hkey, rfl | ⟨hcur, hlast⟩⟩
    · exact ⟨_, (mem_frontier_commit coordinated hinv fresh valid edges key _).mpr
        (Or.inl ⟨rfl, hkey⟩), rfl⟩
    · obtain ⟨e, he, rfl⟩ := (h key b).mpr ⟨hkey, hcur⟩
      refine ⟨e, ?_, rfl⟩
      rw [mem_frontier_commit coordinated hinv fresh valid edges key e]
      exact Or.inr ⟨he, fun hck => hlast (hck.trans hkey.symm)⟩

theorem FrontierCurrent.writes {s' : CausalStore Id Key Value Origin Clock}
    {r : CommitResult Id W} (hinv : Inv sha o s) (h : FrontierCurrent sha o s)
    (hw : Writes sha o s c s' r) : FrontierCurrent sha o s' := by
  cases hw with
  | duplicate => exact h
  | rejected => exact h
  | admitted sup coordinated _ fresh valid _ edges =>
      exact h.commit coordinated hinv fresh valid edges

/-- **The frontier can be read off the log**, whatever the ordering. -/
theorem mem_frontier_iff_current (ho : o.Exhaustive)
    (calls : List (WriteCall Id Key Value Origin Clock)) :
    FrontierCurrent sha o ((machine sha o).run calls) := by
  have hrun : Inv sha o ((machine sha o).run calls) ∧
      FrontierCurrent sha o ((machine sha o).run calls) := by
    apply (machine sha o).run_induction (P := fun s => Inv sha o s ∧ FrontierCurrent sha o s)
    · exact ⟨Inv.empty, FrontierCurrent.empty⟩
    · exact fun s c h =>
        ⟨h.1.writes (write_cases ho c), h.2.writes h.1 (write_cases ho c)⟩
  exact hrun.2

end HorizonProtocol.CausalStore
