import Mathlib.Data.List.Basic
import Supervisor.Address
import Supervisor.Proofs.Decimal

/-!
# Printed addresses are read back

Every address is what its text spells, for whatever host, scope and port.

A reader takes pieces off the front of a text, so each piece is followed
through with any rest behind it.  What the rest must not do is go on where the
piece ends:

* `Ends`: a number in front of it is over.
* `Closes`: groups in front of it are over, and none of them is an octet.

`takeNumber_append` reads a number.  `takeV4_append` reads octets, and
`takeGroups_append` reads groups by induction along them.
`longestZeros_spec` says that what is left out between two colons is a run of
zeros, which makes the three ways to write an IPv6 host spell it
(`takeV6_append`).  `ofText?_text` puts the address together.
-/

namespace Supervisor.Address

/-! ## Numbers -/

/-- No digit stands at the front. -/
def Ends (rest : List Char) : Prop :=
  ∀ c ∈ rest.head?, digit? 16 c = none

@[simp] theorem ends_nil : Ends [] :=
  nofun

@[simp] theorem ends_cons {c : Char} {rest : List Char} :
    Ends (c :: rest) ↔ digit? 16 c = none := by
  simp [Ends]

theorem digit?_ten_of_sixteen {c : Char} (h : digit? 16 c = none) : digit? 10 c = none := by
  unfold digit? at h ⊢
  grind

section Number

variable {radix : Nat} (hradix : radix = 10 ∨ radix = 16)
include hradix

theorem digit?_digitChar {d : Nat} (hd : d < radix) : digit? radix d.digitChar = some d := by
  rcases hradix with rfl | rfl
  · decide +revert
  · decide +revert

theorem digit?_of_ends {c : Char} (h : digit? 16 c = none) : digit? radix c = none := by
  rcases hradix with rfl | rfl
  · exact digit?_ten_of_sixteen h
  · exact h

/-- The digits of a number are digits to the reader, and their value is the
number. -/
theorem digits_toDigits (n : Nat) :
    (∀ c ∈ Nat.toDigits radix n, (digit? radix c).isSome = true) ∧
      (Nat.toDigits radix n).foldl (fun n d => radix * n + (digit? radix d).getD 0) 0 = n := by
  have hbase : 1 < radix := by omega
  induction n using Nat.strongRecOn with
  | ind n ih =>
    rw [Nat.toDigits_eq_if hbase]
    split
    · rename_i hn
      simp [digit?_digitChar hradix hn]
    · rename_i hn
      have hless : n / radix < n := Nat.div_lt_self (by omega) hbase
      have hlast := digit?_digitChar hradix (Nat.mod_lt n (by omega : 0 < radix))
      obtain ⟨hdigits, hvalue⟩ := ih (n / radix) hless
      constructor
      · intro c hc
        rcases List.mem_append.mp hc with hc | hc
        · exact hdigits c hc
        · rw [List.mem_singleton.mp hc, hlast]
          rfl
      · rw [List.foldl_append, hvalue]
        simp [hlast, Nat.div_add_mod]

/-- A number is read up to where it ends. -/
theorem takeNumber_append {maxDigits bound n : Nat} {rest : List Char}
    (hlength : (Nat.toDigits radix n).length ≤ maxDigits) (hn : n < bound) (hrest : Ends rest) :
    takeNumber radix maxDigits bound (Nat.toDigits radix n ++ rest) = some (n, rest) := by
  obtain ⟨hdigits, hvalue⟩ := digits_toDigits hradix n
  have hover : rest.takeWhile (fun c => (digit? radix c).isSome) = [] ∧
      rest.dropWhile (fun c => (digit? radix c).isSome) = rest := by
    cases rest with
    | nil => exact ⟨rfl, rfl⟩
    | cons c rest => simp [digit?_of_ends hradix (ends_cons.mp hrest)]
  unfold takeNumber
  dsimp only
  rw [List.takeWhile_append_of_pos hdigits, List.dropWhile_append_of_pos hdigits, hover.1,
    hover.2, List.append_nil, hvalue, if_pos ⟨Nat.toDigits_ne_nil, hlength, hn⟩]

/-- Where a number would have to end at once there is none. -/
theorem takeNumber_of_ends {maxDigits bound : Nat} {cs : List Char} (h : Ends cs) :
    takeNumber radix maxDigits bound cs = none := by
  have hempty : cs.takeWhile (fun c => (digit? radix c).isSome) = [] := by
    cases cs with
    | nil => rfl
    | cons c cs => simp [digit?_of_ends hradix (ends_cons.mp h)]
  unfold takeNumber
  dsimp only
  rw [hempty, if_neg fun hand => hand.1 rfl]

end Number

/-! ## Octets -/

theorem isDigit_of_ends {c : Char} (h : digit? 16 c = none) : Decimal.isDigit c = false := by
  rw [Bool.eq_false_iff]
  intro hdigit
  simp only [Decimal.isDigit, Bool.and_eq_true, decide_eq_true_eq] at hdigit
  have hhigh : c.toNat ≤ 57 := hdigit.2
  simp [digit?, if_pos hdigit] at h
  omega

/-- No number but zero has a leading zero. -/
theorem head?_toDigits {n : Nat} (hn : 0 < n) : (Nat.toDigits 10 n).head? ≠ some '0' := by
  induction n using Nat.strongRecOn with
  | ind n ih =>
    rw [Nat.toDigits_eq_if (by decide)]
    split
    · rename_i hlt
      exact (by decide : ∀ d < 10, 0 < d → [Nat.digitChar d].head? ≠ some '0') n hlt hn
    · rename_i hge
      rw [List.head?_append_of_ne_nil _ Nat.toDigits_ne_nil]
      exact ih (n / 10) (by omega) (by omega)

/-- A number without a leading zero, or of one digit, may be an octet. -/
theorem no_leading_zero (n : Nat) {rest : List Char} (hrest : Ends rest) :
    ¬ ((Nat.toDigits 10 n ++ rest).head? = some '0' ∧
      1 < ((Nat.toDigits 10 n ++ rest).takeWhile Decimal.isDigit).length) := by
  rintro ⟨hzero, hlong⟩
  rw [List.head?_append_of_ne_nil _ Nat.toDigits_ne_nil] at hzero
  have hn : n = 0 := by
    by_contra hpos
    exact head?_toDigits (Nat.pos_of_ne_zero hpos) hzero
  rw [hn] at hlong
  cases rest with
  | nil => exact absurd hlong (by decide)
  | cons c rest =>
    have hdigits : ('0' :: c :: rest).takeWhile Decimal.isDigit = ['0'] := by
      simp [isDigit_of_ends (ends_cons.mp hrest), show Decimal.isDigit '0' = true from rfl]
    change 1 < (('0' :: c :: rest).takeWhile Decimal.isDigit).length at hlong
    simp [hdigits] at hlong

theorem takeOctet_append (octet : UInt8) {rest : List Char} (hrest : Ends rest) :
    takeOctet (Nat.toDigits 10 octet.toNat ++ rest) = some (octet, rest) := by
  have hbound : octet.toNat < 256 := octet.toNat_lt
  have hlength : (Nat.toDigits 10 octet.toNat).length ≤ 3 := by
    rw [Nat.length_toDigits_le_iff (by decide) (by decide)]
    omega
  unfold takeOctet
  rw [takeNumber_append (.inl rfl) hlength hbound hrest]
  simp only [Option.bind_eq_bind, Option.bind_some, if_neg (no_leading_zero _ hrest)]
  simp

theorem toList_text (h : HostV4) :
    h.text.toList = Nat.toDigits 10 h.a.toNat ++ '.' :: (Nat.toDigits 10 h.b.toNat ++
      '.' :: (Nat.toDigits 10 h.c.toNat ++ '.' :: Nat.toDigits 10 h.d.toNat)) := by
  simp [HostV4.text]

/-- Octets are read up to where the last one ends. -/
theorem takeV4_append (h : HostV4) {rest : List Char} (hrest : Ends rest) :
    takeV4 (h.text.toList ++ rest) = some (h, rest) := by
  have hpoint : ∀ cs, Ends ('.' :: cs) := fun cs => ends_cons.mpr rfl
  rw [toList_text]
  simp [takeV4, takeOctet_append, takeChar, hpoint, hrest]

/-! ## Groups -/

/-- Groups are over, and the last of them is no octet. -/
structure Closes (rest : List Char) : Prop where
  ends : ∀ first cs, takeSeparator ':' first rest = some cs → Ends cs
  pointless : rest.head? ≠ some '.'

theorem Closes.colons (rest : List Char) : Closes (':' :: ':' :: rest) where
  ends first cs h := by
    cases first with
    | true => exact Option.some.inj h ▸ ends_cons.mpr rfl
    | false => exact Option.some.inj h ▸ ends_cons.mpr rfl
  pointless := nofun

/-- What is neither a digit nor a colon nor a point closes the groups. -/
theorem Closes.cons {c : Char} {rest : List Char} (hdigit : digit? 16 c = none) (hcolon : c ≠ ':')
    (hpoint : c ≠ '.') : Closes (c :: rest) where
  ends first cs h := by
    cases first with
    | true => exact Option.some.inj h ▸ ends_cons.mpr hdigit
    | false => simp [takeSeparator, takeChar, hcolon] at h
  pointless := by simpa using hpoint

theorem takeV4_of_ends {cs : List Char} (h : Ends cs) : takeV4 cs = none := by
  simp [takeV4, takeOctet, takeNumber_of_ends (.inl rfl) h]

theorem rest_of_takeOctet {cs rest : List Char} {octet : UInt8}
    (h : takeOctet cs = some (octet, rest)) :
    rest = cs.dropWhile fun c => (digit? 10 c).isSome := by
  unfold takeOctet takeNumber at h
  dsimp only at h
  split at h
  · simp only [Option.bind_eq_bind, Option.bind_some] at h
    split at h
    · simp at h
    · simp at h
      exact h.2.symm
  · simp at h

/-- A group is no octet if what ends it is no point. -/
theorem takeV4_of_pointless (n : Nat) {rest : List Char} (hrest : Ends rest)
    (hpoint : rest.head? ≠ some '.') : takeV4 (Nat.toDigits 16 n ++ rest) = none := by
  have hdigits : ∀ c ∈ Nat.toDigits 16 n, c ≠ '.' := by
    intro c hc heq
    have hsome := (digits_toDigits (.inr rfl) n).1 c hc
    rw [heq] at hsome
    exact absurd hsome (by decide)
  generalize Nat.toDigits 16 n = ds at hdigits ⊢
  -- An octet would be over at the first letter or behind the group.
  have hhead : ((ds ++ rest).dropWhile fun c => (digit? 10 c).isSome).head? ≠ some '.' := by
    induction ds with
    | nil => 
      cases rest with
      | nil => nofun
      | cons c rest => simpa [digit?_ten_of_sixteen (ends_cons.mp hrest)] using hpoint
    | cons d ds ih =>
      rw [List.cons_append, List.dropWhile_cons]
      split
      · exact ih fun c hc => hdigits c (List.mem_cons_of_mem d hc)
      · simpa using hdigits d List.mem_cons_self
  unfold takeV4
  cases hoctet : takeOctet (ds ++ rest) with
  | none => rfl
  | some taken =>
    obtain ⟨octet, rest'⟩ := taken
    rw [← rest_of_takeOctet hoctet] at hhead
    cases rest' with
    | nil => rfl
    | cons c rest' => 
      have hc : c ≠ '.' := by simpa using hhead
      simp [takeChar, hc]

/-- Groups with a colon in front of each, the first one perhaps without. -/
def separated : Bool → List UInt16 → List Char
  | _, [] => []
  | true, g :: gs => Nat.toDigits 16 g.toNat ++ separated false gs
  | false, g :: gs => ':' :: (Nat.toDigits 16 g.toNat ++ separated false gs)

theorem toList_groupsText (gs : List UInt16) :
    (HostV6.groupsText gs).toList = separated true gs := by
  induction gs with
  | nil => rfl
  | cons g gs ih =>
    cases gs with
    | nil => simp [HostV6.groupsText, separated, hexText]
    | cons g' gs => simpa [HostV6.groupsText, separated, hexText] using ih

section Groups

variable {rest : List Char} (hrest : Closes rest)
include hrest

/-- Whatever reads nothing where a number would end reads no further group. -/
theorem Closes.bind_eq_none {β : Type} {f : List Char → Option β}
    (hf : ∀ {cs}, Ends cs → f cs = none) (first : Bool) :
    (takeSeparator ':' first rest).bind f = none := by
  rw [Option.bind_eq_none_iff]
  exact fun cs hcs => hf (hrest.ends first cs hcs)

/-- A group is over in front of the next one, and it is no octet. -/
theorem Closes.follow (gs : List UInt16) :
    Ends (separated false gs ++ rest) ∧ (separated false gs ++ rest).head? ≠ some '.' := by
  cases gs with
  | nil => exact ⟨hrest.ends true _ rfl, hrest.pointless⟩
  | cons g gs => exact ⟨ends_cons.mpr rfl, by simp [separated]⟩

/-- Groups are read up to where the last one ends. -/
theorem takeGroups_append (gs : List UInt16) (room : Nat) (first : Bool)
    (hroom : gs.length ≤ room) :
    takeGroups room first (separated first gs ++ rest) = ((gs, false), rest) := by
  induction gs generalizing room first with
  | nil =>
    have hsame : separated first [] ++ rest = rest := by simp [separated]
    rw [hsame]
    cases room with
    | zero => rfl
    | succ room =>
      simp [takeGroups, hrest.bind_eq_none takeV4_of_ends,
        hrest.bind_eq_none (takeNumber_of_ends (.inr rfl))]
  | cons g gs ih =>
    obtain ⟨hends, hpoint⟩ := hrest.follow gs
    have hnumber : (Nat.toDigits 16 g.toNat).length ≤ 4 := by
      have hg := g.toNat_lt
      rw [Nat.length_toDigits_le_iff (by decide) (by decide)]
      omega
    have htext : takeSeparator ':' first (separated first (g :: gs) ++ rest) =
        some (Nat.toDigits 16 g.toNat ++ (separated false gs ++ rest)) := by
      cases first with
      | true => simp [takeSeparator, separated]
      | false => simp [takeSeparator, takeChar, separated]
    cases room with
    | zero => simp at hroom
    | succ room =>
      have hroom' : gs.length ≤ room := by simpa using hroom
      simp [takeGroups, htext, takeV4_of_pointless _ hends hpoint,
        takeNumber_append (.inr rfl) hnumber g.toNat_lt hends, ih room false hroom']

end Groups

/-! ## IPv6 hosts -/

theorem ofEnds?_eq {h : HostV6} {front back : List UInt16} {n : Nat}
    (hgroups : h.groups = front ++ List.replicate n 0 ++ back) :
    ofEnds? front back = some h := by
  obtain ⟨groups, height⟩ := h
  dsimp only at hgroups
  have hn : 8 - front.length - back.length = n := by
    simp [hgroups] at height
    omega
  simp [ofEnds?, hn, ← hgroups, height]

section Hosts

variable {rest : List Char} (hrest : Closes rest)
include hrest

/-- Eight groups spell the host that has them. -/
theorem takeV6_of_groups (h : HostV6) :
    takeV6 (separated true h.groups ++ rest) = some (h, rest) := by
  have hends : ofEnds? h.groups [] = some h := ofEnds?_eq (n := 0) (by simp)
  unfold takeV6
  rw [takeGroups_append hrest h.groups 8 true (Nat.le_of_eq h.eight)]
  simp [h.eight, hends]

/-- Two colons stand for zeros between the groups around them. -/
theorem takeV6_of_ends {h : HostV6} {front back : List UInt16} {n : Nat} (hn : 0 < n)
    (hgroups : h.groups = front ++ List.replicate n 0 ++ back) :
    takeV6 (separated true front ++ ':' :: ':' :: (separated true back ++ rest)) =
      some (h, rest) := by
  have hlength : front.length + n + back.length = 8 := by
    simpa [hgroups, Nat.add_assoc] using h.eight
  have hfront := takeGroups_append (Closes.colons (separated true back ++ rest)) front
    8 true (by omega)
  have hback := takeGroups_append hrest back (7 - front.length) true (by omega)
  have hshort : front.length ≠ 8 := by omega
  unfold takeV6
  rw [hfront]
  simp [hshort, takeChar, hback, ofEnds?_eq hgroups]

/-- Two colons, a group of ones and octets spell the host that maps the
octets. -/
theorem takeV6_of_octets {h : HostV6} {v4 : HostV4}
    (hgroups : h.groups = List.replicate 5 0 ++ 0xffff :: groupsOfV4 v4) :
    takeV6 ("::ffff:".toList ++ (v4.text.toList ++ rest)) = some (h, rest) := by
  have hones : Nat.toDigits 16 0xffff = ['f', 'f', 'f', 'f'] := by decide
  have hlength : (Nat.toDigits 16 0xffff).length ≤ 4 := by decide
  have htext : "::ffff:".toList ++ (v4.text.toList ++ rest) =
      ':' :: ':' :: (Nat.toDigits 16 0xffff ++ ':' :: (v4.text.toList ++ rest)) := by
    rw [hones]
    simp
  have hcolon : Ends (':' :: (v4.text.toList ++ rest)) := ends_cons.mpr rfl
  have hfront := takeGroups_append
    (Closes.colons (Nat.toDigits 16 0xffff ++ ':' :: (v4.text.toList ++ rest))) [] 8 true (Nat.zero_le 8)
  have hback : takeGroups 7 true (Nat.toDigits 16 0xffff ++ ':' :: (v4.text.toList ++ rest)) =
      ((0xffff :: groupsOfV4 v4, true), rest) := by
    have hoctets := takeV4_append v4 (hrest.ends true _ rfl)
    simp [takeGroups, takeSeparator, takeChar, takeV4_of_pointless 0xffff hcolon (by simp),
      takeNumber_append (.inr rfl) hlength (by decide : 0xffff < 65536) hcolon, hoctets]
  have hends : ofEnds? [] (0xffff :: groupsOfV4 v4) = some h := ofEnds?_eq (n := 5) hgroups
  rw [htext]
  unfold takeV6
  change takeGroups 8 true (':' :: ':' :: _) = _ at hfront
  rw [hfront]
  simp [takeChar, hback, hends]

end Hosts

theorem replicate_zeros_append (gs : List UInt16) :
    List.replicate (HostV6.zeros gs) 0 ++ gs.drop (HostV6.zeros gs) = gs := by
  induction gs with
  | nil => rfl
  | cons g gs ih =>
    unfold HostV6.zeros at ih ⊢
    by_cases hg : g = 0
    · simpa [hg, List.replicate_succ] using ih
    · simp [hg]

/-- A run of zero groups stands between two ends. -/
theorem longestZeros_spec (gs : List UInt16) :
    let run := HostV6.longestZeros gs
    gs = gs.take run.1 ++ List.replicate run.2 0 ++ gs.drop (run.1 + run.2) := by
  induction gs with
  | nil => rfl
  | cons g gs ih =>
    unfold HostV6.longestZeros
    dsimp only at ih ⊢
    split
    · simpa using (replicate_zeros_append (g :: gs)).symm
    · simpa [Nat.succ_add] using ih

theorem halves (w : UInt16) : (w >>> 8).toUInt8.toUInt16 * 256 + w.toUInt8.toUInt16 = w := by
  have hw := w.toNat_lt
  rw [← UInt16.toNat_inj]
  simp [Nat.shiftRight_eq_div_pow]
  omega

/-- A host that maps octets consists of zeros, ones and these octets. -/
theorem groups_of_mapped {h : HostV6} {v4 : HostV4} (hv4 : h.mapped? = some v4) :
    h.groups = List.replicate 5 0 ++ 0xffff :: groupsOfV4 v4 := by
  unfold HostV6.mapped? at hv4
  split at hv4
  · rename_i hi lo hgroups
    rw [hgroups, ← Option.some.inj hv4]
    show _ = [0, 0, 0, 0, 0, 0xffff, _, _]
    rw [halves, halves]
  · cases hv4

/-- An IPv6 host is read up to where its groups are over. -/
theorem takeV6_append (h : HostV6) {rest : List Char} (hrest : Closes rest) :
    takeV6 (h.text.toList ++ rest) = some (h, rest) := by
  unfold HostV6.text
  split
  · rename_i v4 hv4
    rw [String.toList_append, List.append_assoc]
    exact takeV6_of_octets hrest (groups_of_mapped hv4)
  · have hrun := longestZeros_spec h.groups
    dsimp only at hrun ⊢
    split
    · rename_i hlong
      have hends := takeV6_of_ends hrest (Nat.lt_of_succ_lt hlong) hrun
      simpa [toList_groupsText] using hends
    · rw [toList_groupsText]
      exact takeV6_of_groups hrest h

/-! ## Addresses -/

/-- A number may have as many digits as there are. -/
theorem takeNumber_whole {bound n : Nat} {rest : List Char} (hn : n < bound) (hrest : Ends rest) :
    takeNumber 10 (Nat.toDigits 10 n ++ rest).length bound (Nat.toDigits 10 n ++ rest) =
      some (n, rest) :=
  takeNumber_append (.inl rfl) (by simp) hn hrest

theorem takePort_digits (port : UInt16) :
    takePort (':' :: Nat.toDigits 10 port.toNat) = some (port, []) := by
  have hnumber := takeNumber_whole (show port.toNat < UInt16.size from port.toNat_lt) ends_nil
  rw [List.append_nil] at hnumber
  simp [takePort, takeChar, hnumber]

/-- What stands behind the groups of a host: its scope, unless that is zero. -/
def scopeText (scope : UInt32) : List Char :=
  if scope = 0 then [] else '%' :: Nat.toDigits 10 scope.toNat

theorem closes_scopeText (scope : UInt32) (rest : List Char) :
    Closes (scopeText scope ++ ']' :: rest) := by
  unfold scopeText
  split
  · exact Closes.cons rfl (by decide) (by decide)
  · exact Closes.cons rfl (by decide) (by decide)

theorem takeScope_append (scope : UInt32) (rest : List Char) :
    takeScope (scopeText scope ++ ']' :: rest) = (scope, ']' :: rest) := by
  unfold scopeText
  split
  · rename_i hzero
    simp [takeScope, takeChar, hzero]
  · have hbracket : Ends (']' :: rest) := ends_cons.mpr rfl
    have hnumber : (takeChar '%' ('%' :: (Nat.toDigits 10 scope.toNat ++ ']' :: rest))).bind
        (fun rest => takeNumber 10 rest.length UInt32.size rest) =
          some (scope.toNat, ']' :: rest) :=
      takeNumber_whole scope.toNat_lt hbracket
    rw [List.cons_append, takeScope, hnumber]
    simp

/-- Every address is what its text spells. -/
theorem ofText?_text (address : Address) : ofText? address.text = some address := by
  cases address with
  | v4 host port =>
    have htext : (text (.v4 host port)).toList =
        host.text.toList ++ ':' :: Nat.toDigits 10 port.toNat := by
      simp [text]
    have hsocket : takeSocketV4 (text (.v4 host port)).toList = some (.v4 host port, []) := by
      rw [htext, takeSocketV4, takeV4_append host (ends_cons.mpr rfl)]
      simp [takePort_digits]
    rw [ofText?, hsocket]
    rfl
  | v6 host scope port =>
    have htext : (text (.v6 host scope port)).toList =
        '[' :: (host.text.toList ++ (scopeText scope ++
          ']' :: ':' :: Nat.toDigits 10 port.toNat)) := by
      by_cases hscope : scope = 0
      · simp [text, scopeText, hscope]
      · simp [text, scopeText, hscope]
    have hbracket : takeSocketV4 (text (.v6 host scope port)).toList = none := by
      rw [htext, takeSocketV4, takeV4_of_ends (ends_cons.mpr rfl)]
      rfl
    have hsocket : takeSocketV6 (text (.v6 host scope port)).toList =
        some (.v6 host scope port, []) := by
      rw [htext, takeSocketV6]
      simp [takeChar, takeV6_append host (closes_scopeText scope _), takeScope_append,
        takePort_digits]
    rw [ofText?, hbracket, hsocket]
    rfl

end Supervisor.Address
