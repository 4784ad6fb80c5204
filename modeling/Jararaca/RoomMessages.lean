import Mathlib.Data.Set.Function
import Mathlib.Tactic.Common
import Jararaca.DelayedCodec

/-!
# Messages to rooms on the wire

`SendToRoomsMessage` of websocket/redis.py: the names of the rooms, joined by commas, and
the message behind a NUL byte. Nothing is escaped. A Python string is a list of code points,
of which the surrogates have no UTF-8 form.
-/
namespace RoomMessages

open Messages DelayedCodec

inductive CodePoint where
  | scalar (c : Char)
  | surrogate (u : Fin 2048)
  deriving DecidableEq

abbrev Str := List CodePoint

inductive CodecError where
  | unicodeEncodeError
  | unicodeDecodeError
  | valueError
  deriving DecidableEq

def CodePoint.char : CodePoint → Option Char
  | .scalar c => some c
  | .surrogate _ => none

def encodeStr (s : Str) : Except CodecError Bytes :=
  match s.mapM CodePoint.char with
  | some cs => .ok (encodeUtf8 (String.ofList cs))
  | none => .error .unicodeEncodeError

def decodeStr (b : Bytes) : Except CodecError Str :=
  match decodeUtf8 b with
  | some s => .ok (s.toList.map .scalar)
  | none => .error .unicodeDecodeError

structure SendToRoomsMessage where
  rooms : List Str
  message : Bytes

def nul : UInt8 := 0

def comma : UInt8 := 44

/-- `sep.join(parts)` for a separator of one byte. -/
def join (sep : UInt8) (parts : List Bytes) : Bytes := [sep].intercalate parts

def encode (m : SendToRoomsMessage) : Except CodecError Bytes := do
  let rooms ← m.rooms.mapM encodeStr
  return join nul [join comma rooms, m.message]

/-- The unpacking of `data.split` raises unless there are exactly two parts. -/
def decode (data : Bytes) : Except CodecError SendToRoomsMessage :=
  match data.splitOn nul with
  | [rooms, message] => do
    let rooms ← (rooms.splitOn comma).mapM decodeStr
    return { rooms := rooms, message := message }
  | _ => .error .valueError

def RoundTrips (m : SendToRoomsMessage) : Prop := (encode m >>= decode) = .ok m

/-- A name with a UTF-8 form and without the two separators. -/
def PlainName (s : Str) : Prop :=
  (∀ u, CodePoint.surrogate u ∉ s) ∧ .scalar ',' ∉ s ∧ .scalar '\x00' ∉ s

/-- What the format can carry. -/
def Plain (m : SendToRoomsMessage) : Prop :=
  m.rooms ≠ [] ∧ (∀ room ∈ m.rooms, PlainName room) ∧ nul ∉ m.message

section Utf8

def utf8 (cs : List Char) : Bytes := encodeUtf8 (String.ofList cs)

theorem encodeUtf8_ofList (cs : List Char) :
    encodeUtf8 (String.ofList cs) = cs.flatMap String.utf8EncodeChar := by
  rw [encodeUtf8, String.toUTF8_eq_toByteArray, String.toByteArray_ofList, List.utf8Encode]
  simp

/-- A byte of ASCII stands for its own character and is part of no other. -/
theorem mem_utf8EncodeChar {b : UInt8} (hb : b.toNat < 128) (c : Char) :
    b ∈ String.utf8EncodeChar c ↔ c.toNat = b.toNat := by
  have hbyte : ∀ n : Nat, n < 256 → (b = UInt8.ofNat n ↔ b.toNat = n) := by
    intro n hn
    rw [← UInt8.toNat_inj, UInt8.toNat_ofNat_of_lt' hn]
  have hval : c.toNat = c.val.toNat := rfl
  rw [hval]
  unfold String.utf8EncodeChar
  generalize c.val.toNat = v
  simp only
  split
  · rw [List.mem_singleton, hbyte _ (by omega)]
    omega
  · split
    · simp only [List.mem_cons, List.not_mem_nil, or_false]
      rw [hbyte _ (by omega), hbyte _ (by omega)]
      omega
    · split
      · simp only [List.mem_cons, List.not_mem_nil, or_false]
        rw [hbyte _ (by omega), hbyte _ (by omega), hbyte _ (by omega)]
        omega
      · simp only [List.mem_cons, List.not_mem_nil, or_false]
        rw [hbyte _ (by omega), hbyte _ (by omega), hbyte _ (by omega), hbyte _ (by omega)]
        omega

theorem mem_encodeUtf8 {b : UInt8} {c : Char} (hb : b.toNat < 128) (hc : c.toNat = b.toNat)
    (cs : List Char) :
    b ∈ utf8 cs ↔ c ∈ cs := by
  rw [utf8, encodeUtf8_ofList, List.mem_flatMap]
  constructor
  · rintro ⟨x, hx, hmem⟩
    have : x = c := Char.toNat_inj.mp (((mem_utf8EncodeChar hb x).mp hmem).trans hc.symm)
    exact this ▸ hx
  · intro h
    exact ⟨c, h, (mem_utf8EncodeChar hb c).mpr hc⟩

theorem mapM_char (cs : List Char) : (cs.map CodePoint.scalar).mapM CodePoint.char = some cs := by
  induction cs with
  | nil => rfl
  | cons c rest ih => simp [List.mapM_cons, CodePoint.char, ih]

theorem encodeStr_scalars (cs : List Char) : encodeStr (cs.map .scalar) = .ok (utf8 cs) := by
  rw [encodeStr, mapM_char, utf8]

/-- Only texts without surrogates are encoded. -/
theorem encodeStr_ok {s : Str} {b : Bytes} (h : encodeStr s = .ok b) :
    ∃ cs : List Char, s = cs.map .scalar := by
  rw [encodeStr] at h
  split at h
  · rename_i cs hcs
    refine ⟨cs, ?_⟩
    clear h
    induction s generalizing cs with
    | nil => cases cs with
      | nil => rfl
      | cons c rest => cases hcs
    | cons p rest ih =>
      simp only [List.mapM_cons, Option.bind_eq_bind, Option.bind_eq_some_iff] at hcs
      obtain ⟨c, hc, cs', hcs', heq⟩ := hcs
      cases heq
      cases p with
      | scalar x =>
        cases hc
        rw [ih cs' hcs', List.map_cons]
      | surrogate u => cases hc
  · cases h

theorem scalars_of_no_surrogate {s : Str} (h : ∀ u, CodePoint.surrogate u ∉ s) :
    ∃ cs : List Char, s = cs.map .scalar := by
  induction s with
  | nil => exact ⟨[], rfl⟩
  | cons p rest ih =>
    obtain ⟨cs, rfl⟩ := ih fun u hu => h u (List.mem_cons_of_mem _ hu)
    cases p with
    | scalar c => exact ⟨c :: cs, rfl⟩
    | surrogate u => exact absurd List.mem_cons_self (h u)

theorem decodeStr_utf8 (cs : List Char) : decodeStr (utf8 cs) = .ok (cs.map .scalar) := by
  rw [decodeStr, utf8, decodeUtf8_encodeUtf8]
  simp

theorem mapM_encodeStr (css : List (List Char)) :
    (css.map (List.map CodePoint.scalar)).mapM encodeStr = .ok (css.map utf8) := by
  induction css with
  | nil => rfl
  | cons cs rest ih =>
    rw [List.map_cons, List.mapM_cons, encodeStr_scalars, ih]
    rfl

/-- The same for a list of rooms. -/
theorem mapM_encodeStr_ok {rooms : List Str} {bs : List Bytes} (h : rooms.mapM encodeStr = .ok bs) :
    ∃ css : List (List Char), rooms = css.map (List.map .scalar) := by
  induction rooms generalizing bs with
  | nil => exact ⟨[], rfl⟩
  | cons room rest ih =>
    rw [List.mapM_cons] at h
    cases hroom : encodeStr room with
    | error e => rw [hroom] at h; cases h
    | ok b =>
      cases hrest : rest.mapM encodeStr with
      | error e => rw [hroom, hrest] at h; cases h
      | ok bs' =>
        obtain ⟨cs, rfl⟩ := encodeStr_ok hroom
        obtain ⟨css, rfl⟩ := ih hrest
        exact ⟨cs :: css, rfl⟩

theorem mapM_decodeStr (css : List (List Char)) :
    (css.map utf8).mapM decodeStr = .ok (css.map (List.map .scalar)) := by
  induction css with
  | nil => rfl
  | cons cs rest ih =>
    rw [List.map_cons, List.mapM_cons, decodeStr_utf8, ih]
    rfl

theorem mapM_decodeStr_length {bs : List Bytes} {rooms : List Str}
    (h : bs.mapM decodeStr = .ok rooms) :
    rooms.length = bs.length := by
  induction bs generalizing rooms with
  | nil => cases h; rfl
  | cons b rest ih =>
    rw [List.mapM_cons] at h
    cases hb : decodeStr b with
    | error e => rw [hb] at h; cases h
    | ok s =>
      cases hrest : rest.mapM decodeStr with
      | error e => rw [hb, hrest] at h; cases h
      | ok ss =>
        rw [hb, hrest] at h
        cases h
        simp [ih hrest]

end Utf8

section Split

theorem splitOn_length {α : Type} [DecidableEq α] (a : α) (xs : List α) :
    (xs.splitOn a).length = xs.count a + 1 := by
  induction xs with
  | nil => simp
  | cons x rest ih =>
    rw [List.splitOn_cons_eq_if_modifyHead, List.count_cons]
    split <;> simp [ih]

/-- Each separator between two parts, and those inside them. -/
theorem count_intercalate (a : UInt8) (first : Bytes) (rest : List Bytes) :
    ([a].intercalate (first :: rest)).count a =
      ((first :: rest).map fun part => part.count a).sum + rest.length := by
  induction rest generalizing first with
  | nil => simp
  | cons second rest ih =>
    rw [List.intercalate_cons_cons, List.count_append, List.count_append, ih]
    simp
    omega

/-- As many parts as there were means that no part has the separator. -/
theorem no_separator_of_count {a : UInt8} {parts : List Bytes} {part : Bytes}
    (h : parts.length = (join a parts).count a + 1) (hpart : part ∈ parts) : a ∉ part := by
  cases parts with
  | nil => cases hpart
  | cons first rest =>
    rw [join, count_intercalate, List.length_cons] at h
    have hsum : ((first :: rest).map fun part => part.count a).sum = 0 := by omega
    have hzero := List.sum_eq_zero_iff_forall_eq_nat.mp hsum
    exact List.count_eq_zero.mp (hzero _ (List.mem_map_of_mem hpart))

theorem mem_intercalate_of_mem {α : Type} {sep : List α} {parts : List (List α)}
    {part : List α} {a : α}
    (ha : a ∈ part) (hpart : part ∈ parts) : a ∈ sep.intercalate parts := by
  induction parts with
  | nil => cases hpart
  | cons first rest ih =>
    cases rest with
    | nil =>
      rw [List.mem_singleton.mp hpart] at ha
      simpa using ha
    | cons second rest =>
      rw [List.intercalate_cons_cons]
      obtain rfl | hpart := List.mem_cons.mp hpart
      · exact List.mem_append_left _ (List.mem_append_left _ ha)
      · exact List.mem_append_right _ (ih hpart)

/-- What is neither in the separator nor in a part is not in the joined list. -/
theorem not_mem_intercalate {α : Type} {sep : List α} {parts : List (List α)} {a : α}
    (hsep : a ∉ sep)
    (hparts : ∀ part ∈ parts, a ∉ part) : a ∉ sep.intercalate parts := by
  induction parts with
  | nil => simp
  | cons first rest ih =>
    cases rest with
    | nil => simpa using hparts
    | cons second rest =>
      rw [List.intercalate_cons_cons]
      simp only [List.mem_append, not_or]
      exact ⟨⟨hparts first List.mem_cons_self, hsep⟩,
        ih fun part h => hparts part (List.mem_cons_of_mem _ h)⟩

end Split

section RoundTrip

theorem encode_scalars (css : List (List Char)) (message : Bytes) :
    encode { rooms := css.map (List.map .scalar), message := message } =
      .ok (join comma (css.map utf8) ++ nul :: message) := by
  rw [encode, mapM_encodeStr]
  simp [join, bind, Except.bind, pure, Except.pure]

theorem nul_mem_utf8 (cs : List Char) : nul ∈ utf8 cs ↔ '\x00' ∈ cs :=
  mem_encodeUtf8 (by decide) rfl cs

theorem comma_mem_utf8 (cs : List Char) : comma ∈ utf8 cs ↔ ',' ∈ cs :=
  mem_encodeUtf8 (by decide) rfl cs

theorem plainName_scalars (cs : List Char) :
    PlainName (cs.map .scalar) ↔ comma ∉ utf8 cs ∧ nul ∉ utf8 cs := by
  rw [PlainName, nul_mem_utf8, comma_mem_utf8]
  simp

theorem scalars_of_plain {rooms : List Str} (h : ∀ room ∈ rooms, PlainName room) :
    ∃ css : List (List Char), rooms = css.map (List.map .scalar) := by
  induction rooms with
  | nil => exact ⟨[], rfl⟩
  | cons room rest ih =>
    obtain ⟨css, rfl⟩ := ih fun r hr => h r (List.mem_cons_of_mem _ hr)
    obtain ⟨cs, rfl⟩ := scalars_of_no_surrogate (h room List.mem_cons_self).1
    exact ⟨cs :: css, rfl⟩

/-- A plain message comes back. -/
theorem roundTrips_of_plain {m : SendToRoomsMessage} (h : Plain m) : RoundTrips m := by
  obtain ⟨rooms, message⟩ := m
  obtain ⟨hne, hplain, hmessage⟩ := h
  simp only at hne hplain hmessage
  obtain ⟨css, rfl⟩ := scalars_of_plain hplain
  have hparts : ∀ cs ∈ css, comma ∉ utf8 cs ∧ nul ∉ utf8 cs := fun cs hcs =>
    (plainName_scalars cs).mp (hplain _ (List.mem_map_of_mem hcs))
  have hrooms : (join comma (css.map utf8)).splitOn comma = css.map utf8 := by
    refine List.splitOn_intercalate comma ?_ ?_
    · intro part hpart
      obtain ⟨cs, hcs, rfl⟩ := List.mem_map.mp hpart
      exact (hparts cs hcs).1
    · simpa using hne
  have hnul : nul ∉ join comma (css.map utf8) := by
    refine not_mem_intercalate (by decide) ?_
    intro part hpart
    obtain ⟨cs, hcs, rfl⟩ := List.mem_map.mp hpart
    exact (hparts cs hcs).2
  have hdata : (join comma (css.map utf8) ++ nul :: message).splitOn nul =
      [join comma (css.map utf8), message] := by
    rw [List.splitOn_append_cons_self_of_not_mem hnul, List.splitOn_eq_singleton hmessage]
  rw [RoundTrips, encode_scalars]
  simp only [bind, Except.bind, decode, hdata, hrooms, mapM_decodeStr]
  rfl

/-- Only plain messages do. -/
theorem plain_of_roundTrips {m : SendToRoomsMessage} (h : RoundTrips m) : Plain m := by
  obtain ⟨rooms, message⟩ := m
  obtain ⟨css, rfl⟩ : ∃ css : List (List Char), rooms = css.map (List.map .scalar) := by
    cases hrooms : rooms.mapM encodeStr with
    | error e =>
      simp only [RoundTrips, encode, hrooms] at h
      cases h
    | ok bs => exact mapM_encodeStr_ok hrooms
  rw [RoundTrips, encode_scalars] at h
  simp only [bind, Except.bind, decode] at h
  split at h
  · rename_i first second hsplit
    have hcount := splitOn_length nul (join comma (css.map utf8) ++ nul :: message)
    rw [hsplit, List.count_append, List.count_cons_self] at hcount
    simp only [List.length_cons, List.length_nil] at hcount
    have hjoin : nul ∉ join comma (css.map utf8) := List.count_eq_zero.mp (by omega)
    have hmessage : nul ∉ message := List.count_eq_zero.mp (by omega)
    rw [List.splitOn_append_cons_self_of_not_mem hjoin,
      List.splitOn_eq_singleton hmessage] at hsplit
    cases hsplit
    cases hdecoded : ((join comma (css.map utf8)).splitOn comma).mapM decodeStr with
    | error e => rw [hdecoded] at h; cases h
    | ok decoded =>
      rw [hdecoded] at h
      have hrooms : decoded = css.map (List.map .scalar) :=
        congrArg SendToRoomsMessage.rooms (Except.ok.inj h)
      have hlength := mapM_decodeStr_length hdecoded
      rw [hrooms, List.length_map, splitOn_length] at hlength
      refine ⟨?_, ?_, hmessage⟩
      · rintro hnil
        rw [List.map_eq_nil_iff.mp hnil] at hlength
        simp at hlength
      · intro room hroom
        obtain ⟨cs, hcs, rfl⟩ := List.mem_map.mp hroom
        have hmem : utf8 cs ∈ css.map utf8 := List.mem_map_of_mem hcs
        refine (plainName_scalars cs).mpr ⟨?_, fun h => hjoin (mem_intercalate_of_mem h hmem)⟩
        exact no_separator_of_count (by simpa using hlength) hmem
  · cases h

/-- The format carries a message if and only if there is a room, no name has a surrogate, a
comma or a NUL, and the message has no NUL; and of those no two look alike. -/
theorem roundTrips_iff_plain (m : SendToRoomsMessage) :
    (RoundTrips m ↔ Plain m) ∧ ∀ m', Plain m → Plain m' → encode m = encode m' → m = m' := by
  refine ⟨⟨plain_of_roundTrips, roundTrips_of_plain⟩, ?_⟩
  intro m' hm hm' heq
  have h := roundTrips_of_plain hm
  have h' := roundTrips_of_plain hm'
  rw [RoundTrips, heq] at h
  exact Except.ok.inj (h.symm.trans h')

def name (s : String) : Str := s.toList.map .scalar

/-- A message to a room with a comma in its name goes to two other rooms. -/
theorem comma_splits_a_room :
    ¬ RoundTrips { rooms := [name "a,b"], message := [7] } ∧
      (encode { rooms := [name "a,b"], message := [7] } >>= decode) =
        .ok { rooms := [name "a", name "b"], message := [7] } := by
  constructor
  · intro h
    obtain ⟨-, hplain, -⟩ := plain_of_roundTrips h
    exact (hplain _ List.mem_cons_self).2.1 (by decide)
  · have htwo : RoundTrips { rooms := [name "a", name "b"], message := [7] } :=
      roundTrips_of_plain ⟨by decide, by simp [PlainName, name], by decide⟩
    have hsame : encode { rooms := [name "a,b"], message := [7] } =
        encode { rooms := [name "a", name "b"], message := [7] } := by decide
    rw [hsame]
    exact htwo

end RoundTrip

end RoomMessages
