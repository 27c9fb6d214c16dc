import AttemptLedger.Proofs.Text.Utf8
import AttemptLedger.Proofs.Wire.Record
import AttemptLedger.Wire.Encode

/-!
# Reading back what a field writer wrote

Each writer of a field has one lemma: reading its bytes puts the value into what was read so far, also
where nothing is written because the value is the default. Lengths are machine words, so all of this
is said of byte strings that are no longer than a machine word can tell.
-/

namespace AttemptLedger.Wire

theorem tagBytes_spec {field : Nat} (hfield : field < 2 ^ 32) (wireType : WireType) :
    IsVarint (tagBytes field wireType)
      ∧ Tag.ofWord (word (tagBytes field wireType)) = ⟨field, wireType⟩ := by
  have hcode : wireType.code < 8 := by cases wireType <;> decide
  have hlt : field * 8 + wireType.code < 2 ^ 64 := by omega
  obtain ⟨hvarint, hword⟩ := isVarint_varintBytes hlt
  refine ⟨hvarint, ?_⟩
  have hnat : (UInt64.ofNat (field * 8 + wireType.code)).toNat = field * 8 + wireType.code :=
    UInt64.toNat_ofNat_of_lt' hlt
  have hnumber : (field * 8 + wireType.code) / 8 % UInt32.size = field := by
    show (field * 8 + wireType.code) / 8 % 4294967296 = field
    omega
  rw [tagBytes, hword, Tag.ofWord, hnat, hnumber, WireType.ofTag_code]

/-- Reading the bytes takes the state `s` to `t`, if a machine word can tell their length. -/
def Carries {σ : Type} (schema : Schema σ) (bytes : Bytes) (s t : σ) : Prop :=
  bytes.length < 2 ^ 64 → schema.read s bytes = .ok t

structure Slot (σ β : Type) where
  get : σ → List β
  set : List β → σ → σ
  set_get : ∀ s, set (get s) s = s := by intros; rfl
  get_set : ∀ values s, get (set values s) = values := by intros; rfl
  set_set : ∀ values others s, set values (set others s) = set values s := by intros; rfl

section

variable {σ α : Type} {schema : Schema σ} {s t u : σ}

theorem Carries.nil : Carries schema [] s s := fun _ => Schema.read_nil s

theorem Carries.append {a b : Bytes} (ha : Carries schema a s t) (hb : Carries schema b t u) :
    Carries schema (a ++ b) s u := by
  intro h
  rw [List.length_append] at h
  exact Schema.read_append (ha (by omega)) (hb (by omega))

def Schema.Knows (schema : Schema σ) (number : Nat) (field : Field σ) : Prop :=
  schema number = some field ∧ 0 < number ∧ number < 2 ^ 29

theorem knows {number : Nat} {field : Field σ} (h : schema number = some field)
    (hnumber : 0 < number ∧ number < 2 ^ 29 := by decide) : schema.Knows number field :=
  ⟨h, hnumber⟩

theorem carries_record {number : Nat} {field : Field σ} {wireType : WireType} {body : Bytes}
    {payload : Payload} (hknows : schema.Knows number field)
    (hbody : PayloadForm wireType body payload) (hrefusal : field.refusal wireType = none)
    (habsorb : field.absorb payload s = .ok t) :
    schema.read s (tagBytes number wireType ++ body) = .ok t := by
  obtain ⟨hfield, hpositive, hsmall⟩ := hknows
  obtain ⟨hvarint, htag⟩ := tagBytes_spec (Nat.lt_trans hsmall (by decide)) wireType
  refine Schema.read_record hvarint ?_ ?_ ?_ ?_ habsorb
  · rw [htag]
    exact Nat.ne_of_gt hpositive
  · rw [htag]
    exact hbody
  · rw [htag]
    exact hfield
  · rw [htag]
    exact hrefusal

theorem carries_number {number : Nat} {label : String} {put : UInt64 → σ → σ} (value : UInt64)
    (h : schema.Knows number (.number label put)) :
    Carries schema (tagBytes number .varint ++ varintBytes value.toNat) s (put value s) := by
  intro _
  obtain ⟨hvarint, hword⟩ := isVarint_varintBytes value.toNat_lt
  apply carries_record h (.varint hvarint) rfl
  show Except.ok (put (word (varintBytes value.toNat)) s) = _
  rw [hword, UInt64.ofNat_toNat]

theorem carries_requiredInt (number : Nat) {label : String} {put : Int64 → σ → σ} (value : Int64)
    (h : schema.Knows number (.int label put)) :
    Carries schema (requiredInt number value) s (put value s) :=
  carries_number value.toUInt64 h

theorem carries_optionalInt (number : Nat) {label : String} {put : Int64 → σ → σ} (value : Int64)
    (h : schema.Knows number (.int label put)) (hdefault : put 0 s = s) :
    Carries schema (optionalInt number value) s (put value s) := by
  unfold optionalInt
  split
  · next hzero =>
    rw [hzero, hdefault]
    exact .nil
  · exact carries_requiredInt number value h

theorem carries_setFlag (number : Nat) {label : String} {put : Bool → σ → σ} (value : Bool)
    (h : schema.Knows number (.flag label put)) (hdefault : put false s = s) :
    Carries schema (setFlag number value) s (put value s) := by
  cases value with
  | false =>
    rw [hdefault]
    exact .nil
  | true => exact carries_number 1 h

theorem carries_delimited (number : Nat) {field : Field σ} {body : Bytes}
    (h : schema.Knows number field) (hrefusal : field.refusal .delimited = none)
    (habsorb : body.length < 2 ^ 64 → field.absorb (.bytes body) s = .ok t) :
    Carries schema (delimited number body) s t := by
  intro hlength
  have hbody : body.length < 2 ^ 64 := by
    simp only [delimited, List.length_append] at hlength
    omega
  obtain ⟨hvarint, hword⟩ := isVarint_varintBytes hbody
  have hcount : (word (varintBytes body.length)).toNat = body.length := by
    rw [hword]
    exact UInt64.toNat_ofNat_of_lt' hbody
  rw [delimited, List.append_assoc]
  exact carries_record h (.delimited hvarint hcount) hrefusal (habsorb hbody)

/-- The items of a list, written one after the other, are collected behind what is there. -/
theorem carries_repeated {β : Type} (number : Nat) (slot : Slot σ β) {write : α → Bytes}
    (back : α → β) (items : List α) {field : Field σ} {read : Bytes → Except Fault β}
    (h : schema.Knows number field) (hrefusal : field.refusal .delimited = none)
    (habsorb : ∀ body s, field.absorb (.bytes body) s
      = (read body).map fun value => slot.set (slot.get s ++ [value]) s)
    (hread : ∀ item ∈ items, (write item).length < 2 ^ 64 → read (write item) = .ok (back item)) :
    Carries schema (items.flatMap fun item => delimited number (write item)) s
      (slot.set (slot.get s ++ items.map back) s) := by
  induction items generalizing s with
  | nil =>
    rw [List.map_nil, List.append_nil, slot.set_get]
    exact .nil
  | cons item items ih =>
    have hhead : Carries schema (delimited number (write item)) s
        (slot.set (slot.get s ++ [back item]) s) := by
      apply carries_delimited number h hrefusal
      intro hlength
      rw [habsorb, hread item (List.mem_cons_self ..) hlength]
      rfl
    have htail := ih (s := slot.set (slot.get s ++ [back item]) s)
      fun item hitem => hread item (List.mem_cons_of_mem _ hitem)
    rw [slot.get_set, slot.set_set, List.append_assoc, List.singleton_append] at htail
    exact hhead.append htail

theorem textOfBytes_encode (text : String) : textOfBytes (Text.Utf8.encode text) = .ok text := by
  rw [textOfBytes, Text.Utf8.decode_encode]

theorem carries_text (number : Nat) {label : String} {put : String → σ → σ} (text : String)
    (h : schema.Knows number (.text label put)) :
    Carries schema (delimited number (Text.Utf8.encode text)) s (put text s) := by
  apply carries_delimited number h rfl
  intro _
  show (textOfBytes (Text.Utf8.encode text)).map (put · s) = _
  rw [textOfBytes_encode]
  rfl

theorem carries_textField (number : Nat) {label : String} {put : String → σ → σ} (text : String)
    (h : schema.Knows number (.text label put)) (hdefault : put "" s = s) :
    Carries schema (textField number text) s (put text s) := by
  unfold textField
  split
  · next hempty =>
    rw [hempty, hdefault]
    exact .nil
  · exact carries_text number text h

theorem carries_optionalText (number : Nat) {label : String} (put : Option String → σ → σ)
    (text : Option String) (h : schema.Knows number (.text label fun text => put (some text)))
    (hdefault : put none s = s) :
    Carries schema (optionalText number text) s (put text s) := by
  cases text with
  | none =>
    rw [hdefault]
    exact .nil
  | some text => exact carries_text number text h

end

end AttemptLedger.Wire
