import DevForge.Base64
import Mathlib.Data.Option.Basic

/-!
# The vault of secrets

A column holds sealed values and the clear values of before the vault: a prefix tells them
apart. What is written is sealed and read back, unless the value has the prefix of its own.
-/

set_option autoImplicit false

namespace DevForge.SealedSecrets

/-! ## Text -/

def utf8 (s : String) : List UInt8 := s.toList.flatMap String.utf8EncodeChar

def continuation (b : UInt8) : Bool := 0x80 ≤ b && b ≤ 0xBF

/-- The byte may stand second in a character of three or four bytes. -/
def second (b c : UInt8) : Bool :=
  if b = 0xE0 then 0xA0 ≤ c && c ≤ 0xBF
  else if b = 0xED then 0x80 ≤ c && c ≤ 0x9F
  else if b = 0xF0 then 0x90 ≤ c && c ≤ 0xBF
  else if b = 0xF4 then 0x80 ≤ c && c ≤ 0x8F
  else 0xE0 ≤ b && b ≤ 0xF4 && continuation c

/-- The bytes at the head that no character has, as many as began one. -/
def invalidLength : List UInt8 → ℕ
  | b::c::d::_ => if second b c then (if 0xF0 ≤ b && continuation d then 3 else 2) else 1
  | [b,c] => if second b c then 2 else 1
  | _ => 1

theorem invalidLength_pos (bs : List UInt8) : 0 < invalidLength bs := by
  unfold invalidLength
  split
  · split
    · split <;> decide
    · decide
  · split <;> decide
  · decide

def decodeChar (bs : List UInt8) : Option Char := ByteArray.utf8DecodeChar? bs.toByteArray 0

/-- `String::from_utf8_lossy`. -/
def fromUtf8Lossy (bs : List UInt8) : List Char :=
  match bs with
  | [] => []
  | b::rest => match decodeChar (b::rest) with
    | some c => c::fromUtf8Lossy ((b::rest).drop c.utf8Size)
    | none => Char.ofNat 0xFFFD::fromUtf8Lossy ((b::rest).drop (invalidLength (b::rest)))
termination_by bs.length
decreasing_by
  · have := c.utf8Size_pos
    simp only [List.length_drop, List.length_cons]
    omega
  · have := invalidLength_pos (b::rest)
    simp only [List.length_drop, List.length_cons]
    omega

/-! ## The cipher -/

abbrev Key := { l : List UInt8 // l.length = 32 }

abbrev Nonce := { l : List UInt8 // l.length = 12 }

/-- An authenticated cipher, for texts up to a limit. -/
structure Aead where
  limit : ℕ
  encrypt : Key → Nonce → List UInt8 → Option (List UInt8)
  decrypt : Key → Nonce → List UInt8 → Option (List UInt8)

/-- Decryption inverts encryption, and the text is no longer than what was encrypted. -/
structure Aead.Correct (a : Aead) : Prop where
  encrypts : ∀ key nonce m, (a.encrypt key nonce m).isSome ↔ m.length ≤ a.limit
  inverts : ∀ key nonce m c, a.encrypt key nonce m = some c → a.decrypt key nonce c = some m
  shorter : ∀ key nonce c m, a.decrypt key nonce c = some m → m.length ≤ c.length

inductive SecretError where
  | Key (message : String)
  | Format
  | Decrypt

def PREFIX : List Char := ['v','1',':']

def isSealed (v : String) : Bool := PREFIX.isPrefixOf v.toList

def stripPrefix (s : String) : Option (List Char) := PREFIX.isPrefixOf? s.toList

def splitOnce (s : List Char) : Option (List Char × List Char) :=
  if ':' ∈ s then some (s.takeWhile (· ≠ ':'),(s.dropWhile (· ≠ ':')).tail) else none

section
variable (a : Aead)

/-! ## Sealing and opening -/

/-- Nothing comes of it when the cipher refuses the text: the program stops there. -/
def boxSeal (key : Key) (nonce : Nonce) (plaintext : List UInt8) : Option String :=
  (a.encrypt key nonce plaintext).map (fun ct =>
    String.ofList (PREFIX++Base64.encode nonce.val++ ':'::Base64.encode ct))

def boxOpen (key : Key) (stored : String) : Except SecretError (List UInt8) :=
  match stripPrefix stored with
  | none => .error .Format
  | some rest => match splitOnce rest with
    | none => .error .Format
    | some (n,c) => match Base64.decode n with
      | none => .error .Format
      | some nonce =>
        if h : nonce.length = 12 then
          match Base64.decode c with
          | none => .error .Format
          | some ct => match a.decrypt key ⟨nonce,h⟩ ct with
            | none => .error .Decrypt
            | some m => .ok m
        else .error .Format

variable (vault : Except SecretError Key)

def vaultSeal (nonce : Nonce) (plaintext : List UInt8) : Option (Except SecretError String) :=
  match vault with
  | .error e => some (.error e)
  | .ok key => (boxSeal a key nonce plaintext).map .ok

def vaultOpen (stored : String) : Except SecretError (List UInt8) :=
  match vault with
  | .error e => .error e
  | .ok key => boxOpen a key stored

/-- The bytes that were sealed, or nothing. -/
def openedText : Except SecretError (List UInt8) → String
  | .ok b => String.ofList (fromUtf8Lossy b)
  | .error _ => ""

/-- The value of a column, in clear. -/
def openCompat (stored : String) : String := if isSealed stored then openedText (vaultOpen a vault stored) else stored

/-- What is written for a value: the value itself when the vault is missing. -/
def sealCompat (nonce : Nonce) (plain : String) : Option String :=
  if plain = "" || isSealed plain then some plain
  else (vaultSeal a vault nonce (utf8 plain)).map (fun
    | .ok s => s
    | .error _ => plain)

end

/-! ## Characters -/

theorem decodeChar_encode (c : Char) (bs : List UInt8) : decodeChar (String.utf8EncodeChar c++bs) = some c := by
  rw [decodeChar, List.toByteArray_append]
  exact ByteArray.utf8DecodeChar?_utf8EncodeChar_append

theorem lossy_utf8 (cs : List Char) : fromUtf8Lossy (cs.flatMap String.utf8EncodeChar) = cs := by
  induction cs with
  | nil => rw [List.flatMap_nil, fromUtf8Lossy]
  | cons c cs ih =>
    have hdecode := decodeChar_encode c (cs.flatMap String.utf8EncodeChar)
    have hlen := String.length_utf8EncodeChar c
    rw [List.flatMap_cons]
    cases hw : String.utf8EncodeChar c with
    | nil => exact absurd hw String.utf8EncodeChar_ne_nil
    | cons b word =>
      rw [hw] at hdecode hlen
      rw [List.cons_append] at hdecode ⊢
      rw [fromUtf8Lossy, hdecode]
      simp only
      rw [← List.cons_append, ← hlen, List.drop_left, ih]

theorem lossy_length (bs : List UInt8) : (fromUtf8Lossy bs).length ≤ bs.length := by
  induction bs using fromUtf8Lossy.induct with
  | case1 => rw [fromUtf8Lossy]; exact le_refl _
  | case2 b rest c hc ih =>
    have := c.utf8Size_pos
    rw [fromUtf8Lossy, hc]
    simp only [List.length_drop, List.length_cons] at ih ⊢
    omega
  | case3 b rest hc ih =>
    have := invalidLength_pos (b::rest)
    rw [fromUtf8Lossy, hc]
    simp only [List.length_drop, List.length_cons] at ih ⊢
    omega

/-! ## Sealed values -/

theorem stripPrefix_of (s : List Char) : stripPrefix (String.ofList (PREFIX++s)) = some s := by
  rw [stripPrefix, String.toList_ofList]
  rfl

theorem isSealed_of (s : List Char) : isSealed (String.ofList (PREFIX++s)) = true := by
  rw [isSealed, String.toList_ofList]
  rfl

theorem stripPrefix_eq {s : String} {rest : List Char} (h : stripPrefix s = some rest) : s.toList = PREFIX++rest :=
  (List.isPrefixOf?_eq_some_iff_append_eq.mp h).symm

theorem splitOnce_append {n : List Char} (h : ':' ∉ n) (c : List Char) : splitOnce (n++ ':'::c) = some (n,c) := by
  have hn : ∀ x ∈ n, decide (x ≠ ':') = true := fun x hx => decide_eq_true (fun heq => h (heq ▸ hx))
  rw [splitOnce, if_pos (by simp), List.takeWhile_append_of_pos hn, List.dropWhile_append_of_pos hn]
  simp

theorem splitOnce_eq {s n c : List Char} (h : splitOnce s = some (n,c)) : c.length < s.length := by
  unfold splitOnce at h
  split at h
  · next hmem =>
    have hdrop := (List.dropWhile_suffix (l := s) (· ≠ ':')).length_le
    have hpos : 0 < s.length := List.length_pos_of_mem hmem
    obtain ⟨-,rfl⟩ := Prod.mk.inj (Option.some.inj h)
    rw [List.length_tail]
    omega
  · cases h

section
variable {a : Aead}

theorem boxOpen_boxSeal (ha : a.Correct) {key : Key} {nonce : Nonce} {m : List UInt8} {s : String}
    (h : boxSeal a key nonce m = some s) : isSealed s = true ∧ boxOpen a key s = .ok m := by
  obtain ⟨ct,hct,rfl⟩ := Option.map_eq_some_iff.mp h
  constructor
  · rw [List.append_assoc]
    exact isSealed_of _
  · have hcolon : ':' ∉ Base64.encode nonce.val := Base64.not_mem_encode (by decide) (by decide) _
    rw [boxOpen, List.append_assoc, stripPrefix_of]
    simp only
    rw [splitOnce_append hcolon]
    simp only
    rw [Base64.decode_encode]
    simp only
    rw [dif_pos nonce.property, Base64.decode_encode]
    simp only
    rw [ha.inverts key nonce m ct hct]

/-- What is opened is shorter than what was stored. -/
theorem boxOpen_length (ha : a.Correct) {key : Key} {stored : String} {m : List UInt8} (h : boxOpen a key stored = .ok m) :
    m.length < stored.toList.length := by
  unfold boxOpen at h
  split at h
  · cases h
  next rest hrest =>
  split at h
  · cases h
  next n c hsplit =>
  split at h
  · cases h
  split at h
  · split at h
    · cases h
    next ct hct =>
    split at h
    · cases h
    next hm =>
      obtain rfl := Except.ok.inj h
      have htext := ha.shorter _ _ _ _ hm
      have hbytes := Base64.decode_length hct
      have hrest := congrArg List.length (stripPrefix_eq hrest)
      have hcolon := splitOnce_eq hsplit
      rw [List.length_append] at hrest
      omega
  · cases h

/-- A value with the prefix is not read as itself. -/
theorem openCompat_ne (ha : a.Correct) (vault : Except SecretError Key) {p : String} (hp : isSealed p = true) :
    openCompat a vault p ≠ p := by
  intro h
  have hempty : "" ≠ p := by
    rintro rfl
    exact absurd hp (by decide)
  rw [openCompat, if_pos hp] at h
  cases vault with
  | error e => exact hempty h
  | ok key =>
    have hread : openedText (boxOpen a key p) = p := h
    cases hopen : boxOpen a key p with
    | error e => exact hempty (by rw [← hread, hopen]; rfl)
    | ok m =>
      have hlen := boxOpen_length ha hopen
      have hlossy := lossy_length m
      rw [hopen, openedText] at hread
      rw [← hread, String.toList_ofList] at hlen
      omega

/-! ## Reading back -/

/-- What is written is read back, is not sealed twice, and is read as it is where the vault has not sealed it. -/
structure ReadsBack (a : Aead) (key : Key) (nonce nonce' : Nonce) (p : String) : Prop where
  back : (sealCompat a (.ok key) nonce p).map (openCompat a (.ok key)) = some p
  again : ∀ s, sealCompat a (.ok key) nonce p = some s → sealCompat a (.ok key) nonce' s = some s
  historic : ∀ vault, openCompat a vault p = p
  notEmpty : p ≠ "" → (sealCompat a (.ok key) nonce p).map (openCompat a (.ok key)) ≠ some ""

theorem readsBack_iff (ha : a.Correct) (key : Key) (nonce nonce' : Nonce) (p : String) :
    ReadsBack a key nonce nonce' p ↔ isSealed p = false ∧ (utf8 p).length ≤ a.limit := by
  constructor
  · intro h
    have hp : isSealed p = false := by
      rw [Bool.eq_false_iff]
      exact fun hp => openCompat_ne ha (.ok key) hp (h.historic _)
    refine ⟨hp,?_⟩
    by_cases hempty : p = ""
    · subst hempty
      exact Nat.zero_le _
    · apply (ha.encrypts key nonce (utf8 p)).mp
      have hback := h.back
      rw [sealCompat, if_neg (by simp [hempty, hp])] at hback
      cases henc : a.encrypt key nonce (utf8 p) with
      | some c => rfl
      | none =>
        simp only [vaultSeal, boxSeal, henc, Option.map_none] at hback
        cases hback
  · rintro ⟨hp,hlimit⟩
    have hhistoric : ∀ vault, openCompat a vault p = p := fun vault => by
      rw [openCompat, if_neg (by simp [hp])]
    by_cases hempty : p = ""
    · subst hempty
      refine ⟨?_,?_,hhistoric,fun h => absurd rfl h⟩
      · rw [sealCompat, if_pos (by decide), Option.map_some, hhistoric]
      · intro s hs
        rw [sealCompat, if_pos (by decide)] at hs
        rw [← Option.some.inj hs, sealCompat, if_pos (by decide)]
    · obtain ⟨c,hc⟩ := Option.isSome_iff_exists.mp ((ha.encrypts key nonce (utf8 p)).mpr hlimit)
      obtain ⟨s,hs⟩ : ∃ s, boxSeal a key nonce (utf8 p) = some s := by
        rw [boxSeal, hc]
        exact ⟨_,rfl⟩
      obtain ⟨hsealed,hopen⟩ := boxOpen_boxSeal ha hs
      have hseal : sealCompat a (.ok key) nonce p = some s := by
        rw [sealCompat, if_neg (by simp [hempty, hp]), vaultSeal, hs]
        rfl
      have hread : openCompat a (.ok key) s = p := by
        rw [openCompat, if_pos hsealed, vaultOpen, hopen, openedText, utf8, lossy_utf8, String.ofList_toList]
      refine ⟨?_,?_,hhistoric,?_⟩
      · rw [hseal, Option.map_some, hread]
      · intro s' hs'
        rw [hseal] at hs'
        rw [← Option.some.inj hs', sealCompat, if_pos (by simp [hsealed])]
      · intro _
        rw [hseal, Option.map_some, hread]
        exact fun h => hempty (Option.some.inj h)

end

/-- The text and a tag behind it: a cipher for the values that are not sealed. -/
def tagged : Aead where
  limit := 2^36
  encrypt _ _ m := if m.length ≤ 2^36 then some (m++List.replicate 16 0) else none
  decrypt _ _ c := if c.drop (c.length-16) = List.replicate 16 0 then some (c.take (c.length-16)) else none

theorem tagged_correct : tagged.Correct where
  encrypts key nonce m := by
    show (if m.length ≤ 2^36 then some (m++List.replicate 16 0) else none).isSome ↔ m.length ≤ 2^36
    by_cases h : m.length ≤ 2^36
    · rw [if_pos h]
      exact iff_of_true rfl h
    · rw [if_neg h]
      exact iff_of_false (by simp) h
  inverts key nonce m c h := by
    obtain ⟨-,rfl⟩ : m.length ≤ 2^36 ∧ m++List.replicate 16 0 = c := by
      by_cases hm : m.length ≤ 2^36
      · exact ⟨hm,Option.some.inj ((if_pos hm).symm.trans h)⟩
      · exact absurd ((if_neg hm).symm.trans h) (by simp)
    simp [tagged]
  shorter key nonce c m h := by
    by_cases htag : c.drop (c.length-16) = List.replicate 16 0
    · have hm := Option.some.inj ((if_pos htag).symm.trans h)
      rw [← hm]
      exact List.length_take_le' _ _
    · exact absurd ((if_neg htag).symm.trans h) (by simp)

def zeroKey : Key := ⟨List.replicate 32 0,rfl⟩

def zeroNonce : Nonce := ⟨List.replicate 12 0,rfl⟩

theorem empty_reads_back : ReadsBack tagged zeroKey zeroNonce zeroNonce "" ∧
    ¬ReadsBack tagged zeroKey zeroNonce zeroNonce "v1:foo" := by
  constructor
  · exact (readsBack_iff tagged_correct zeroKey zeroNonce zeroNonce "").mpr ⟨by decide,Nat.zero_le _⟩
  · intro h
    exact absurd ((readsBack_iff tagged_correct zeroKey zeroNonce zeroNonce "v1:foo").mp h).1 (by decide)

/-- A value that begins as a sealed one is written as it is, and read as nothing. -/
theorem prefixed_value_lost : ¬∀ a : Aead, a.Correct → ∀ (key : Key) (nonce nonce' : Nonce) (p : String),
    (utf8 p).length ≤ a.limit → ReadsBack a key nonce nonce' p := by
  intro h
  have hback := (h tagged tagged_correct zeroKey zeroNonce zeroNonce "v1:foo" (by decide)).back
  have hsealed : isSealed "v1:foo" = true := by decide
  rw [sealCompat, if_pos (by decide), Option.map_some, openCompat, if_pos hsealed] at hback
  have hopen : vaultOpen tagged (.ok zeroKey) "v1:foo" = .error .Format := rfl
  rw [hopen] at hback
  exact absurd (Option.some.inj hback) (by decide)

end DevForge.SealedSecrets
