import AttemptLedger.Proofs.Wire.Record
import AttemptLedger.Wire.Decode

/-!
# Records of different fields in any order

Every field of the seven messages puts what it reads into a part of the draft that no other field of
the message touches. So records of different fields may change places, and a record may move past all
records of other fields.
-/

namespace AttemptLedger.Wire

/-! ### What fields do to a draft -/

section

variable {σ α β : Type}

/-- A field that passes a payload over or puts the value that it reads into the draft, whatever the
draft holds. -/
def Field.Puts (field : Field σ) (put : α → σ → σ) : Prop :=
  ∀ payload s t, field.absorb payload s = .ok t →
    (∀ u, field.absorb payload u = .ok u) ∨ ∃ value, ∀ u, field.absorb payload u = .ok (put value u)

theorem puts_number (label : String) (put : UInt64 → σ → σ) : (Field.number label put).Puts put := by
  intro payload s t _
  cases payload with
  | number value => exact Or.inr ⟨value, fun _ => rfl⟩
  | _ => exact Or.inl fun _ => rfl

theorem puts_nested (label : String) (read : Bytes → Except Fault α) (put : α → σ → σ) :
    (Field.nested label read put).Puts put := by
  intro payload s t habsorb
  cases payload with
  | bytes body =>
    obtain ⟨value, hvalue, _⟩ := map_eq_ok_iff.1 habsorb
    exact Or.inr ⟨value, fun u => map_eq_ok_iff.2 ⟨value, hvalue, rfl⟩⟩
  | _ => exact Or.inl fun _ => rfl

def Field.Commutes (first second : Field σ) : Prop :=
  ∀ p q s middle t, first.absorb p s = .ok middle → second.absorb q middle = .ok t →
    ∃ other, second.absorb q s = .ok other ∧ first.absorb p other = .ok t

theorem commutes_of_puts {first second : Field σ} {put : α → σ → σ} {set : β → σ → σ}
    (hfirst : first.Puts put) (hsecond : second.Puts set)
    (h : ∀ a b s, set b (put a s) = put a (set b s)) : first.Commutes second := by
  intro p q s middle t hp hq
  rcases hfirst p s middle hp with hpass | ⟨a, hput⟩
  · rw [hpass s] at hp
    cases hp
    exact ⟨t, hq, hpass t⟩
  · rw [hput s] at hp
    cases hp
    rcases hsecond q _ t hq with hpass | ⟨b, hset⟩
    · rw [hpass (put a s)] at hq
      cases hq
      exact ⟨s, hpass s, hput s⟩
    · rw [hset (put a s), h a b s] at hq
      cases hq
      exact ⟨set b s, hset s, hput _⟩

/-- Fields of different numbers may be taken in in either order. -/
def Schema.Commutes (schema : Schema σ) : Prop :=
  ∀ m n first second, m ≠ n → schema m = some first → schema n = some second →
    first.Commutes second

namespace Schema

variable {schema : Schema σ}

theorem absorb_swap (h : schema.Commutes) {first second : Record}
    (hne : first.tag.field ≠ second.tag.field) {s middle t : σ}
    (hfirst : schema.absorb first s = .ok middle) (hsecond : schema.absorb second middle = .ok t) :
    ∃ other, schema.absorb second s = .ok other ∧ schema.absorb first other = .ok t := by
  unfold absorb at *
  cases hf : schema first.tag.field with
  | none =>
    rw [hf] at hfirst
    cases hfirst
    exact ⟨t, hsecond, rfl⟩
  | some field =>
    rw [hf] at hfirst
    cases hg : schema second.tag.field with
    | none =>
      rw [hg] at hsecond
      cases hsecond
      exact ⟨s, rfl, hfirst⟩
    | some other =>
      rw [hg] at hsecond
      exact h _ _ field other hne hf hg _ _ s middle t hfirst hsecond

theorem absorbAll_swap (h : schema.Commutes) {first second : Record}
    (hne : first.tag.field ≠ second.tag.field) {s t : σ}
    (habsorb : schema.absorbAll [first, second] s = .ok t) :
    schema.absorbAll [second, first] s = .ok t := by
  obtain ⟨middle, hfirst, habsorb⟩ := absorbAll_cons_eq_ok_iff.1 habsorb
  obtain ⟨last, hsecond, hlast⟩ := absorbAll_cons_eq_ok_iff.1 habsorb
  cases hlast
  obtain ⟨other, hother, hend⟩ := absorb_swap h hne hfirst hsecond
  exact absorbAll_cons_eq_ok_iff.2 ⟨other, hother, absorbAll_cons_eq_ok_iff.2 ⟨t, hend, rfl⟩⟩

/-- A record may move from the front past records of other fields. -/
theorem absorbAll_move (h : schema.Commutes) {record : Record} {fronts : List Record}
    (hother : ∀ front ∈ fronts, front.tag.field ≠ record.tag.field) {s middle t : σ}
    (hrecord : schema.absorb record s = .ok middle)
    (hfronts : schema.absorbAll fronts middle = .ok t) :
    ∃ last, schema.absorbAll fronts s = .ok last ∧ schema.absorb record last = .ok t := by
  induction fronts generalizing s middle with
  | nil =>
    cases hfronts
    exact ⟨s, rfl, hrecord⟩
  | cons front fronts ih =>
    obtain ⟨hne, htail⟩ := List.forall_mem_cons.1 hother
    obtain ⟨next, hnext, hfronts⟩ := absorbAll_cons_eq_ok_iff.1 hfronts
    obtain ⟨first, hfirst, hafter⟩ := absorb_swap h (Ne.symm hne) hrecord hnext
    obtain ⟨last, hlast, hend⟩ := ih htail hafter hfronts
    exact ⟨last, absorbAll_cons_eq_ok_iff.2 ⟨first, hfirst, hlast⟩, hend⟩

end Schema

end

theorem puts_chainFlags :
    chainFlags.Puts fun flags draft => { draft with flags := draft.flags ++ flags } := by
  intro payload s t habsorb
  cases payload with
  | number value => exact Or.inr ⟨[value != 0], fun _ => rfl⟩
  | bytes body =>
    obtain ⟨flags, hflags, _⟩ := map_eq_ok_iff.1 habsorb
    exact Or.inr ⟨flags, fun u => map_eq_ok_iff.2 ⟨flags, hflags, rfl⟩⟩
  | skipped => exact Or.inl fun _ => rfl

theorem attemptSchema_commutes : attemptSchema.Commutes := by
  intro m n first second hne hfirst hsecond
  match m with
  | 1 | 2 | 5 | 13 | 14 | 15 | 16 =>
    cases hfirst
    match n with
    | 1 | 2 | 5 | 13 | 14 | 15 | 16 =>
      cases hsecond
      first
      | exact commutes_of_puts (puts_number _ _) (puts_number _ _) fun _ _ _ => rfl
      | exact absurd rfl hne
    | 3 | 4 | 6 | 7 | 8 | 9 | 10 | 11 | 12 =>
      cases hsecond
      exact commutes_of_puts (puts_number _ _) (puts_nested _ _ _) fun _ _ _ => rfl
    | 0 | _ + 17 => cases hsecond
  | 3 | 4 | 6 | 7 | 8 | 9 | 10 | 11 | 12 =>
    cases hfirst
    match n with
    | 1 | 2 | 5 | 13 | 14 | 15 | 16 =>
      cases hsecond
      exact commutes_of_puts (puts_nested _ _ _) (puts_number _ _) fun _ _ _ => rfl
    | 3 | 4 | 6 | 7 | 8 | 9 | 10 | 11 | 12 =>
      cases hsecond
      first
      | exact commutes_of_puts (puts_nested _ _ _) (puts_nested _ _ _) fun _ _ _ => rfl
      | exact absurd rfl hne
    | 0 | _ + 17 => cases hsecond
  | 0 | _ + 17 => cases hfirst

theorem fuzzyTestSchema_commutes : fuzzyTestSchema.Commutes := by
  intro m n first second hne hfirst hsecond
  match m with
  | 1 | 2 | 3 | 5 =>
    cases hfirst
    match n with
    | 1 | 2 | 3 | 5 =>
      cases hsecond
      first
      | exact commutes_of_puts (puts_nested _ _ _) (puts_nested _ _ _) fun _ _ _ => rfl
      | exact absurd rfl hne
    | 4 =>
      cases hsecond
      exact commutes_of_puts (puts_nested _ _ _) (puts_number _ _) fun _ _ _ => rfl
    | 0 | _ + 6 => cases hsecond
  | 4 =>
    cases hfirst
    match n with
    | 1 | 2 | 3 | 5 =>
      cases hsecond
      exact commutes_of_puts (puts_number _ _) (puts_nested _ _ _) fun _ _ _ => rfl
    | 4 => exact absurd rfl hne
    | 0 | _ + 6 => cases hsecond
  | 0 | _ + 6 => cases hfirst

theorem unitTestSchema_commutes : unitTestSchema.Commutes := by
  intro m n first second hne hfirst hsecond
  match m with
  | 1 | 2 | 4 =>
    cases hfirst
    match n with
    | 1 | 2 | 4 =>
      cases hsecond
      first
      | exact commutes_of_puts (puts_nested _ _ _) (puts_nested _ _ _) fun _ _ _ => rfl
      | exact absurd rfl hne
    | 3 =>
      cases hsecond
      exact commutes_of_puts (puts_nested _ _ _) (puts_number _ _) fun _ _ _ => rfl
    | 0 | _ + 5 => cases hsecond
  | 3 =>
    cases hfirst
    match n with
    | 1 | 2 | 4 =>
      cases hsecond
      exact commutes_of_puts (puts_number _ _) (puts_nested _ _ _) fun _ _ _ => rfl
    | 3 => exact absurd rfl hne
    | 0 | _ + 5 => cases hsecond
  | 0 | _ + 5 => cases hfirst

theorem requestSchema_commutes : requestSchema.Commutes := by
  intro m n first second hne hfirst hsecond
  match m with
  | 1 | 2 | 3 | 4 =>
    cases hfirst
    match n with
    | 1 | 2 | 3 | 4 =>
      cases hsecond
      first
      | exact commutes_of_puts (puts_nested _ _ _) (puts_nested _ _ _) fun _ _ _ => rfl
      | exact absurd rfl hne
    | 0 | _ + 5 => cases hsecond
  | 0 | _ + 5 => cases hfirst

theorem chainSchema_commutes : chainSchema.Commutes := by
  have hattempt : chainAttempt.Puts fun attempt (draft : ChainDraft) =>
      { draft with attempts := draft.attempts ++ [attempt] } := puts_nested "" readAttempt _
  intro m n first second hne hfirst hsecond
  match m, n with
  | 1, 1 | 2, 2 => exact absurd rfl hne
  | 1, 2 =>
    cases hfirst
    cases hsecond
    exact commutes_of_puts hattempt puts_chainFlags fun _ _ _ => rfl
  | 2, 1 =>
    cases hfirst
    cases hsecond
    exact commutes_of_puts puts_chainFlags hattempt fun _ _ _ => rfl
  | 0, _ | _ + 3, _ => cases hfirst
  | _, 0 | _, _ + 3 => cases hsecond

theorem responseSchema_commutes : responseSchema.Commutes := by
  intro m n first second hne hfirst hsecond
  match m, n with
  | 1, 1 | 2, 2 => exact absurd rfl hne
  | 1, 2 | 2, 1 =>
    cases hfirst
    cases hsecond
    exact commutes_of_puts (puts_nested _ _ _) (puts_nested _ _ _) fun _ _ _ => rfl
  | 0, _ | _ + 3, _ => cases hfirst
  | _, 0 | _, _ + 3 => cases hsecond

theorem batchSchema_commutes : batchSchema.Commutes := by
  intro m n first second hne hfirst hsecond
  match m, n with
  | 1, 1 => exact absurd rfl hne
  | 0, _ | _ + 2, _ => cases hfirst
  | _, 0 | _, _ + 2 => cases hsecond

end AttemptLedger.Wire
