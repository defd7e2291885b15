import Schemreg.Wire.Model

/-
  The Confluent prefix.

  `decode_wire_prefix` accepts exactly the byte strings that start with the prefix of some
  key, and returns that key and the length of the prefix (`decodeWirePrefix_eq_ok`). It
  never panics.
-/

namespace Schemreg.Wire

open Checked

theorem fromBeBytes_toNat (a b c d : UInt8) : (fromBeBytes a b c d).toNat =
    a.toNat * 2 ^ 24 + b.toNat * 2 ^ 16 + c.toNat * 2 ^ 8 + d.toNat := by
  have ha := a.toNat_lt
  have hb := b.toNat_lt
  have hc := c.toNat_lt
  have hd := d.toNat_lt
  unfold fromBeBytes
  rw [UInt32.toNat_ofNat']
  omega

theorem toBeBytes_fromBeBytes (a b c d : UInt8) :
    toBeBytes (fromBeBytes a b c d) = [a, b, c, d] := by
  have ha := a.toNat_lt
  have hb := b.toNat_lt
  have hc := c.toNat_lt
  have hd := d.toNat_lt
  have hbyte : ∀ (n : Nat) (x : UInt8), n % 2 ^ 8 = x.toNat → UInt8.ofNat n = x := by
    intro n x h
    rw [← UInt8.toNat_inj, UInt8.toNat_ofNat']
    exact h
  unfold toBeBytes
  rw [fromBeBytes_toNat, hbyte _ a (by omega), hbyte _ b (by omega), hbyte _ c (by omega),
    hbyte _ d (by omega)]

theorem fromBeBytes_toBeBytes {n : UInt32} {a b c d : UInt8} (h : toBeBytes n = [a, b, c, d]) :
    fromBeBytes a b c d = n := by
  have hn := n.toNat_lt
  unfold toBeBytes at h
  obtain ⟨rfl, rfl, rfl, rfl⟩ : UInt8.ofNat (n.toNat / 2 ^ 24) = a ∧
      UInt8.ofNat (n.toNat / 2 ^ 16) = b ∧ UInt8.ofNat (n.toNat / 2 ^ 8) = c ∧
      UInt8.ofNat n.toNat = d := by simpa using h
  rw [← UInt32.toNat_inj, fromBeBytes_toNat]
  simp only [UInt8.toNat_ofNat']
  omega

theorem length_putPrefix (key : SchemaKey) : (putPrefix key).length =
    match key with
    | .id _ => prefixLenV0
    | .guid _ => prefixLenV1 := by
  cases key with
  | id id => rfl
  | guid guid =>
    show guid.asBytes.length + 1 = prefixLenV1
    rw [guid.length_eq]
    rfl

/-- The first four bytes after the magic byte. -/
theorem four_bytes {bs : Bytes} (h : 4 ≤ bs.length) :
    ∃ a b c d rest, bs = a :: b :: c :: d :: rest := by
  match bs, h with
  | a :: b :: c :: d :: rest, _ => exact ⟨a, b, c, d, rest, rfl⟩

theorem decodeWirePrefix_v0 {bs : Bytes} (h : 4 ≤ bs.length) : ∃ id rest,
    decodeWirePrefix (magicByteV0 :: bs) = .ok (.id id, prefixLenV0) ∧
    magicByteV0 :: bs = putPrefix (.id id) ++ rest := by
  obtain ⟨a, b, c, d, rest, rfl⟩ := four_bytes h
  refine ⟨⟨fromBeBytes a b c d⟩, rest, ?_, ?_⟩
  · unfold decodeWirePrefix
    rw [List.head?_cons]
    dsimp only
    have hlen : ¬ (magicByteV0 :: a :: b :: c :: d :: rest).length < prefixLenV0 := by
      show ¬ rest.length + 1 + 1 + 1 + 1 + 1 < 5
      omega
    rw [if_pos rfl, if_neg hlen]
    rfl
  · show magicByteV0 :: a :: b :: c :: d :: rest =
      magicByteV0 :: (toBeBytes (fromBeBytes a b c d) ++ rest)
    rw [toBeBytes_fromBeBytes]
    rfl

theorem decodeWirePrefix_v1 {bs : Bytes} (h : 16 ≤ bs.length) : ∃ guid rest,
    decodeWirePrefix (magicByteV1 :: bs) = .ok (.guid guid, prefixLenV1) ∧
    magicByteV1 :: bs = putPrefix (.guid guid) ++ rest := by
  obtain ⟨hlen, hslice, hcopy⟩ := @slice_copy SchemaRegError _ (magicByteV1 :: bs) 1 16 (by
    rw [List.length_cons]
    omega)
  refine ⟨⟨bs.take 16, hlen⟩, bs.drop 16, ?_, ?_⟩
  · unfold decodeWirePrefix
    rw [List.head?_cons]
    dsimp only
    have hlong : ¬ (magicByteV1 :: bs).length < prefixLenV1 := by
      show ¬ bs.length + 1 < 17
      omega
    rw [if_neg (by decide), if_pos rfl, if_neg hlong]
    show (slice (magicByteV1 :: bs) 1 (1 + 16) >>= fun bytes =>
      copyFromSlice 16 bytes >>= fun guid => .ok (SchemaKey.guid ⟨guid.1, guid.2⟩, prefixLenV1)) = _
    rw [hslice, Outcome.bind_ok, hcopy]
    rfl
  · show magicByteV1 :: bs = magicByteV1 :: (bs.take 16 ++ bs.drop 16)
    rw [List.take_append_drop]

/-- Every outcome of `decode_wire_prefix`: the prefix of a key, or an error. -/
theorem decodeWirePrefix_cases (data : Bytes) :
    (∃ key rest, decodeWirePrefix data = .ok (key, (putPrefix key).length) ∧
      data = putPrefix key ++ rest) ∨ (decodeWirePrefix data).IsErr := by
  cases data with
  | nil => exact Or.inr ⟨_, rfl⟩
  | cons magic bs =>
    by_cases h0 : magic = magicByteV0
    · subst h0
      rcases Nat.lt_or_ge bs.length 4 with hshort | hlong
      · refine Or.inr ?_
        unfold decodeWirePrefix
        rw [List.head?_cons]
        dsimp only
        rw [if_pos rfl, if_pos (by rw [List.length_cons]; exact Nat.succ_lt_succ hshort)]
        exact ⟨_, rfl⟩
      · obtain ⟨id, rest, hok, hdata⟩ := decodeWirePrefix_v0 hlong
        exact Or.inl ⟨.id id, rest, by rw [hok, length_putPrefix], hdata⟩
    · by_cases h1 : magic = magicByteV1
      · subst h1
        rcases Nat.lt_or_ge bs.length 16 with hshort | hlong
        · refine Or.inr ?_
          unfold decodeWirePrefix
          rw [List.head?_cons]
          dsimp only
          rw [if_neg h0, if_pos rfl,
            if_pos (by rw [List.length_cons]; exact Nat.succ_lt_succ hshort)]
          exact ⟨_, rfl⟩
        · obtain ⟨guid, rest, hok, hdata⟩ := decodeWirePrefix_v1 hlong
          exact Or.inl ⟨.guid guid, rest, by rw [hok, length_putPrefix], hdata⟩
      · refine Or.inr ?_
        unfold decodeWirePrefix
        rw [List.head?_cons]
        dsimp only
        rw [if_neg h0, if_neg h1]
        exact ⟨_, rfl⟩

theorem decodeWirePrefix_safe (data : Bytes) : (decodeWirePrefix data).Safe := by
  rcases decodeWirePrefix_cases data with ⟨key, rest, hok, -⟩ | ⟨e, herr⟩
  · rw [hok]
    exact Outcome.safe_ok _
  · rw [herr]
    exact Outcome.safe_err _

/-- Prefixes of different keys differ. -/
theorem putPrefix_append_inj {key key' : SchemaKey} {rest rest' : Bytes}
    (h : putPrefix key ++ rest = putPrefix key' ++ rest') : key = key' ∧ rest = rest' := by
  have hmagic : magicByteV0 ≠ magicByteV1 := by decide
  cases key with
  | id id =>
    cases key' with
    | id id' =>
      obtain ⟨hbytes, hrest⟩ := List.append_inj (List.cons.inj h).2 rfl
      refine ⟨?_, hrest⟩
      have hword : ∀ n : UInt32, ∃ a b c d, toBeBytes n = [a, b, c, d] := fun n => ⟨_, _, _, _, rfl⟩
      obtain ⟨a, b, c, d, habcd⟩ := hword id.asU32
      have hid := fromBeBytes_toBeBytes habcd
      have hid' := fromBeBytes_toBeBytes (hbytes ▸ habcd : toBeBytes id'.asU32 = [a, b, c, d])
      exact congrArg (fun n => SchemaKey.id ⟨n⟩) (hid.symm.trans hid')
    | guid guid => exact absurd (List.cons.inj h).1 hmagic
  | guid guid =>
    cases key' with
    | id id => exact absurd (List.cons.inj h).1.symm hmagic
    | guid guid' =>
      obtain ⟨hbytes, hrest⟩ := List.append_inj (List.cons.inj h).2
        (guid.length_eq.trans guid'.length_eq.symm)
      cases guid
      cases guid'
      cases hbytes
      exact ⟨rfl, hrest⟩

theorem decodeWirePrefix_append (key : SchemaKey) (rest : Bytes) :
    decodeWirePrefix (putPrefix key ++ rest) = .ok (key, (putPrefix key).length) := by
  have hlong : ∃ key' rest', decodeWirePrefix (putPrefix key ++ rest) =
      .ok (key', (putPrefix key').length) ∧ putPrefix key ++ rest = putPrefix key' ++ rest' := by
    cases key with
    | id id =>
      obtain ⟨id', rest', hok, hdata⟩ := @decodeWirePrefix_v0 (toBeBytes id.asU32 ++ rest) (by
        rw [List.length_append]
        exact Nat.le_add_right 4 rest.length)
      exact ⟨.id id', rest', by rw [length_putPrefix]; exact hok, hdata⟩
    | guid guid =>
      obtain ⟨guid', rest', hok, hdata⟩ := @decodeWirePrefix_v1 (guid.asBytes ++ rest) (by
        rw [List.length_append, guid.length_eq]
        omega)
      exact ⟨.guid guid', rest', by rw [length_putPrefix]; exact hok, hdata⟩
  obtain ⟨key', rest', hok, hdata⟩ := hlong
  obtain ⟨rfl, -⟩ := putPrefix_append_inj hdata
  exact hok

/-- `decode_wire_prefix` accepts what starts with the prefix of a key. -/
theorem decodeWirePrefix_eq_ok {data : Bytes} {key : SchemaKey} {n : Nat} :
    decodeWirePrefix data = .ok (key, n) ↔
      n = (putPrefix key).length ∧ ∃ rest, data = putPrefix key ++ rest := by
  constructor
  · intro hok
    rcases decodeWirePrefix_cases data with ⟨key', rest, hok', hdata⟩ | herr
    · rw [hok] at hok'
      cases hok'
      exact ⟨rfl, rest, hdata⟩
    · exact absurd ⟨_, hok⟩ herr.not_isOk
  · rintro ⟨rfl, rest, rfl⟩
    exact decodeWirePrefix_append key rest

theorem drop_putPrefix (key : SchemaKey) (rest : Bytes) :
    (putPrefix key ++ rest).drop (putPrefix key).length = rest := List.drop_left

theorem sliceFrom_putPrefix (key : SchemaKey) (rest : Bytes) :
    (sliceFrom (putPrefix key ++ rest) (putPrefix key).length : Decoding Bytes) = .ok rest := by
  rw [sliceFrom_of_le (by rw [List.length_append]; omega), drop_putPrefix]

/-- Stripping the prefix gives the key and what follows it. -/
theorem decodeWireFormat_append (key : SchemaKey) (rest : Bytes) :
    decodeWireFormat (putPrefix key ++ rest) = .ok (key, rest) := by
  unfold decodeWireFormat
  rw [decodeWirePrefix_append, Outcome.bind_ok]
  dsimp only
  rw [sliceFrom_putPrefix]
  rfl

theorem decodeWireFormat_eq_ok {data : Bytes} {key : SchemaKey} {payload : Bytes} :
    decodeWireFormat data = .ok (key, payload) ↔ data = putPrefix key ++ payload := by
  constructor
  · intro hok
    rcases decodeWirePrefix_cases data with ⟨key', rest, -, rfl⟩ | ⟨e, herr⟩
    · rw [decodeWireFormat_append] at hok
      cases hok
      rfl
    · unfold decodeWireFormat at hok
      rw [herr] at hok
      cases hok
  · rintro rfl
    exact decodeWireFormat_append key payload

end Schemreg.Wire
