/-
What work with effects comes to. A service may count, log, remember or
fail while it answers, in a monad of its choice, and `Always` speaks of
the results alone: whatever else the work does, all that it can come to
has a property. The rules follow how work is put together.
-/

namespace SourceBundle

variable {m : Type → Type} [Monad m] {α β : Type}

/-- Whatever else the work does, what it comes to has a property: the work is that of giving a
value with the property, the property forgotten. -/
def Always (P : α → Prop) (x : m α) : Prop :=
  ∃ y : m { a // P a }, Subtype.val <$> y = x

namespace Always

variable [LawfulMonad m] {P : α → Prop} {Q : β → Prop} {x : m α}

theorem of_pure {a : α} (ha : P a) : Always P (pure a : m α) :=
  ⟨pure ⟨a, ha⟩, map_pure _ _⟩

theorem mono {R : α → Prop} (hx : Always P x) (hPR : ∀ a, P a → R a) : Always R x := by
  obtain ⟨y, rfl⟩ := hx
  exact ⟨(fun a => ⟨a.1, hPR a.1 a.2⟩) <$> y, (comp_map _ _ y).symm⟩

theorem bind {f : α → m β} (hx : Always P x) (hf : ∀ a, P a → Always Q (f a)) :
    Always Q (x >>= f) := by
  obtain ⟨y, rfl⟩ := hx
  refine ⟨y >>= fun a => (hf a.1 a.2).choose, ?_⟩
  rw [map_bind, bind_map_left]
  exact congrArg (y >>= ·) (funext fun a => (hf a.1 a.2).choose_spec)

/-- Any work comes to something. -/
theorem of_any (x : m α) : Always (fun _ => True) x :=
  ⟨(fun a => ⟨a, trivial⟩) <$> x, (comp_map _ _ x).symm.trans (id_map x)⟩

/-- Where nothing is asked of the first result. -/
theorem after (x : m α) {f : α → m β} (hf : ∀ a, Always Q (f a)) : Always Q (x >>= f) :=
  (of_any x).bind fun a _ => hf a

/-- Work goes on in the same way from all that it can come to. -/
theorem bind_congr {f g : α → m β} (hx : Always P x) (hfg : ∀ a, P a → f a = g a) :
    x >>= f = x >>= g := by
  obtain ⟨y, rfl⟩ := hx
  rw [bind_map_left, bind_map_left]
  exact congrArg (y >>= ·) (funext fun a => hfg a.1 a.2)

end Always

/-- Plain values are what they come to. -/
theorem always_id_iff {P : α → Prop} {x : Id α} : Always P x ↔ P x.run := by
  constructor
  · intro hx
    obtain ⟨y, rfl⟩ := hx
    exact y.run.2
  · intro hx
    exact ⟨⟨x.run, hx⟩, rfl⟩

end SourceBundle
