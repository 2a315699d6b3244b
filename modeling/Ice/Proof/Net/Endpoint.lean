import Ice.Net.Endpoint
import Mathlib.Data.List.TakeWhile

/-!
# `endpoint::create` parses IPv4 texts only

Which family `create` asks `inet_pton` for is decided by a search for five bytes: a colon, a
NUL and whatever three bytes follow the literal. A text of an address holds no NUL, so for
every such text the search fails and `AF_INET` is asked, which accepts no text with a colon.

* a conversion that succeeds stores the family, the address and the port where `family`,
  `address` and `port` read them (`convert_valid`), and `host` writes a text that
  `inet_pton` reads back (`host_of_convert`);
* **the property of `create` holds of a host exactly if `AF_INET6` does not accept it and,
  where `AF_INET` does, the five bytes are not found** (`parses_iff`). The second part only
  concerns strings with a NUL inside.
-/

set_option autoImplicit false

namespace Ice
namespace Net

open Lib

/-- What is documented of `inet_pton` and `inet_ntop`. -/
structure Inet.Lawful (inet : Inet) : Prop where
  size : ∀ {af text addr}, inet.pton af text = .valid addr → addr.length = af.addrSize
  -- Four decimal numbers and dots.
  dotted : ∀ {text addr}, inet.pton .inet text = .valid addr → 58 ∉ text
  -- At most four hexadecimal digits stand before the first colon.
  colons : ∀ {text addr}, inet.pton .inet6 text = .valid addr → 58 ∈ text.take 5
  back : ∀ {af text addr}, inet.pton af text = .valid addr →
    inet.pton af (inet.ntop af addr) = .valid addr
  nul : ∀ {af text addr}, inet.pton af text = .valid addr → 0 ∉ inet.ntop af addr
  fits : ∀ {af text addr}, inet.pton af text = .valid addr →
    (inet.ntop af addr).length + 1 ≤ af.addrstrlen

/-- `inet_pton` accepts the host for the family. -/
def Accepts (inet : Inet) (af : Af) (host : List UInt8) : Prop :=
  ∃ addr, inet.pton af (cstr host) = .valid addr

/-! ## 1. The search and the C string -/

theorem sublist_of_find {pattern : List UInt8} :
    ∀ {host : List UInt8}, find host pattern ≠ none → pattern <:+: host
  | [], h => by
    unfold find at h
    split at h
    · rename_i he
      exact he ▸ List.infix_rfl
    · exact absurd rfl h
  | c :: host, h => by
    unfold find at h
    split at h
    · rename_i hp
      exact hp.isInfix
    · have ht : find host pattern ≠ none := fun he => h (by rw [he, Option.map_none])
      exact (sublist_of_find ht).trans (List.suffix_cons c host).isInfix

/-- The search finds nothing in a string without a NUL. -/
theorem find_colon_of_nul {after : Vector UInt8 3} {host : List UInt8} (h : 0 ∉ host) :
    find host (colon after) = none := by
  by_contra hf
  apply h
  apply (sublist_of_find hf).subset
  simp [colon]

theorem cstr_of_nul {text : List UInt8} (h : 0 ∉ text) : cstr text = text := by
  apply List.takeWhile_eq_self_iff.mpr
  intro c hc
  exact decide_eq_true fun hz => h (hz ▸ hc)

/-- A text followed by a NUL. -/
theorem cstr_append_zeros {text : List UInt8} {n : ℕ} (h : 0 ∉ text) :
    cstr (text ++ List.replicate n 0) = text := by
  have ht : ∀ c ∈ text, decide (c ≠ 0) = true := fun c hc => decide_eq_true fun hz => h (hz ▸ hc)
  rw [cstr, List.takeWhile_append_of_pos ht]
  cases n <;> simp [List.replicate_succ]

/-- `ntohs` undoes `htons`. -/
@[simp] theorem ntohs_htons (port : UInt16) : ntohs (htons port) = port := by
  have hp := port.toNat_lt
  apply UInt16.toNat_inj.mp
  simp only [htons, ntohs, UInt8.toNat_ofNat', UInt16.toNat_ofNat']
  omega

/-! ## 2. One conversion -/

variable {os : Os} {inet : Inet} {after : Vector UInt8 3}

/-- The family `create` asks for. -/
def chosen (after : Vector UInt8 3) (host : List UInt8) : Af :=
  if find host (colon after) = none then .inet else .inet6

theorem chosen_of_nul {host : List UInt8} (h : 0 ∉ host) : chosen after host = .inet :=
  if_pos (find_colon_of_nul h)

theorem create_eq {host : List UInt8} {port : UInt16} {ep : Endpoint} :
    Endpoint.create os inet after host port ep =
      Endpoint.report (Endpoint.convert os inet (chosen after host) host port ep) := by
  unfold Endpoint.create chosen
  split <;> rfl

theorem af?_of_size {ep : Endpoint} {af : Af} (h : ep.size = af.sockaddrSize) :
    ep.af? = some af := by
  cases af <;> simp [Endpoint.af?, h, Af.sockaddrSize]

theorem af?_of_zero {ep : Endpoint} (h : ep.size = 0) : ep.af? = none := by
  simp [Endpoint.af?, h, Af.sockaddrSize]

/-- An endpoint that holds the address and the port in the layout of the family. -/
structure Holds (ep : Endpoint) (af : Af) (addr : List UInt8) (port : UInt16) : Prop where
  af? : ep.af? = some af
  address : load ep.storage af.addrOffset af.addrSize = addr
  port : load ep.storage 2 2 = htons port

namespace Holds

variable {ep : Endpoint} {af : Af} {addr : List UInt8} {port : UInt16}

theorem family_eq (h : Holds ep af addr port) : ep.family os = af.value os := by
  rw [Endpoint.family, h.af?]

theorem address_eq (h : Holds ep af addr port) : ep.address = addr := by
  rw [Endpoint.address, h.af?]
  exact h.address

theorem port_eq (h : Holds ep af addr port) : ep.port = port := by
  rw [Endpoint.port, h.af?]
  simp only [h.port, ntohs_htons]

/-- `host()` is the text of the address. -/
theorem host_eq {text : List UInt8} (h : Holds ep af addr port) (hl : inet.Lawful)
    (ha : inet.pton af text = .valid addr) : ep.host inet = inet.ntop af addr := by
  rw [Endpoint.host, h.af?]
  simp only [h.address]
  rw [if_pos (hl.fits ha), cstr_append_zeros (hl.nul ha)]

end Holds

/-- **A conversion that succeeds** leaves the address and the port in its layout. -/
theorem convert_valid {af : Af} {host addr : List UInt8} (os : Os) (port : UInt16)
    (ep : Endpoint) (hl : inet.Lawful) (h : inet.pton af (cstr host) = .valid addr) :
    (Endpoint.convert os inet af host port ep).1 = .valid addr ∧
      Holds (Endpoint.convert os inet af host port ep).2 af addr port := by
  have hsize := hl.size h
  unfold Endpoint.convert
  simp only [h]
  refine ⟨trivial, af?_of_size rfl, ?_, ?_⟩
  · rw [← hsize]
    exact load_store
  · rw [load_store_of_disjoint (Or.inl (by cases af <;> decide))]
    show load (store _ 2 (htons port)) 2 (htons port).length = htons port
    exact load_store

theorem create_valid {host addr : List UInt8} (os : Os) (port : UInt16) (ep : Endpoint)
    (hl : inet.Lawful) (h : inet.pton (chosen after host) (cstr host) = .valid addr) :
    (Endpoint.create os inet after host port ep).1 = .clear ∧
      Holds (Endpoint.create os inet after host port ep).2 (chosen after host) addr port := by
  obtain ⟨he, hh⟩ := convert_valid os port ep hl h
  rw [create_eq]
  generalize Endpoint.convert os inet (chosen after host) host port ep = made at he hh
  obtain ⟨error, ep'⟩ := made
  cases he
  exact ⟨rfl, hh⟩

/-- **A conversion that fails** is reported, and leaves an endpoint that holds nothing. -/
theorem create_invalid {host : List UInt8} (os : Os) (port : UInt16) (ep : Endpoint)
    (h : ¬ Accepts inet (chosen after host) host) :
    (Endpoint.create os inet after host port ep).1.isSet = true ∧
      (Endpoint.create os inet after host port ep).2.af? = none := by
  rw [create_eq]
  have he : (Endpoint.convert os inet (chosen after host) host port ep).1 =
      inet.pton (chosen after host) (cstr host) := rfl
  generalize Endpoint.convert os inet (chosen after host) host port ep = made at he
  obtain ⟨error, ep'⟩ := made
  cases error with
  | valid addr => exact absurd ⟨addr, he.symm⟩ h
  | invalid => exact ⟨rfl, af?_of_zero rfl⟩
  | failed errno => exact ⟨by simp [Endpoint.report, errno.pos], af?_of_zero rfl⟩

/-! ## 3. The property of `create` -/

/-- The endpoint made from `host()` and `port()` of `ep` in place of `other`. -/
def again (os : Os) (inet : Inet) (after : Vector UInt8 3) (ep other : Endpoint) : Endpoint :=
  (Endpoint.create os inet after (ep.host inet) ep.port other).2

/-- `create(host, port)` on `ep` accepts what some family accepts, in that family and so
    that it can be made again from its parts, and rejects the rest. -/
structure Parses (os : Os) (inet : Inet) (after : Vector UInt8 3) (host : List UInt8)
    (port : UInt16) (ep : Endpoint) : Prop where
  accepted : ∀ af, Accepts inet af host → ∀ r, Endpoint.create os inet after host port ep = r →
    r.1.isSet = false ∧ r.2.family os = af.value os ∧ r.2.port = port ∧
      ∀ other, (again os inet after r.2 other).family os = r.2.family os ∧
        (again os inet after r.2 other).address = r.2.address ∧
        (again os inet after r.2 other).port = r.2.port
  rejected : (∀ af, ¬ Accepts inet af host) → ∀ r,
    Endpoint.create os inet after host port ep = r →
      r.1.isSet = true ∧ r.2.host inet = [] ∧ r.2.port = 0 ∧ r.2.family os = 0

/-- An IPv4 text has no colon, so no text belongs to both families. -/
theorem Inet.Lawful.exclusive (hl : inet.Lawful) {text addr addr' : List UInt8}
    (h4 : inet.pton .inet text = .valid addr) (h6 : inet.pton .inet6 text = .valid addr') :
    False :=
  hl.dotted h4 (List.mem_of_mem_take (hl.colons h6))

/-- What is made again from an IPv4 endpoint. -/
theorem again_inet {ep : Endpoint} {text addr : List UInt8} {port : UInt16} (os : Os)
    (after : Vector UInt8 3) (other : Endpoint) (hl : inet.Lawful)
    (ha : inet.pton .inet text = .valid addr)
    (h : Holds ep .inet addr port) :
    Holds (again os inet after ep other) .inet addr port := by
  unfold again
  rw [h.host_eq hl ha, h.port_eq]
  have hc : chosen after (inet.ntop .inet addr) = .inet := chosen_of_nul (hl.nul ha)
  have hback : inet.pton (chosen after (inet.ntop .inet addr))
      (cstr (inet.ntop .inet addr)) = .valid addr := by
    rw [hc, cstr_of_nul (hl.nul ha)]
    exact hl.back ha
  have hmade := (create_valid os port other hl hback).2
  rw [hc] at hmade
  exact hmade

/-- Nothing can be made again from an IPv6 endpoint: its text is given to `AF_INET`. -/
theorem again_inet6 {ep : Endpoint} {text addr : List UInt8} {port : UInt16} (os : Os)
    (after : Vector UInt8 3) (other : Endpoint) (hl : inet.Lawful)
    (ha : inet.pton .inet6 text = .valid addr)
    (h : Holds ep .inet6 addr port) : (again os inet after ep other).af? = none := by
  unfold again
  rw [h.host_eq hl ha]
  apply (create_invalid os _ other _).2
  rw [chosen_of_nul (hl.nul ha)]
  intro ⟨addr', h4⟩
  rw [cstr_of_nul (hl.nul ha)] at h4
  exact hl.exclusive h4 (hl.back ha)

/-- No host that `AF_INET6` accepts is parsed as the property asks. -/
theorem not_parses_inet6 {host : List UInt8} {port : UInt16} {ep : Endpoint}
    (hl : inet.Lawful) (h6 : Accepts inet .inet6 host) :
    ¬ Parses os inet after host port ep := by
  intro h
  obtain ⟨hec, _, _, hagain⟩ := h.accepted .inet6 h6 _ rfl
  obtain ⟨addr, ha⟩ := h6
  cases hc : chosen after host with
  | inet =>
    have hr : ¬ Accepts inet (chosen after host) host := by
      rw [hc]
      intro ⟨addr', h4⟩
      exact hl.exclusive h4 ha
    rw [(create_invalid os port ep hr).1] at hec
    cases hec
  | inet6 =>
    have hv : inet.pton (chosen after host) (cstr host) = .valid addr := hc ▸ ha
    have hmade := (create_valid os port ep hl hv).2
    rw [hc] at hmade
    have hnone := again_inet6 os after ep hl ha hmade
    have hfam := (hagain ep).1
    rw [hmade.family_eq, Endpoint.family, hnone] at hfam
    cases os <;> cases hfam

/-- **When `create` does what it is for**: exactly where the host is no IPv6 text and, where
    it is an IPv4 text, the bytes read from `":"` on are not found in it. -/
theorem parses_iff {host : List UInt8} {port : UInt16} {ep : Endpoint} (hl : inet.Lawful) :
    Parses os inet after host port ep ↔
      ¬ Accepts inet .inet6 host ∧
        (Accepts inet .inet host → find host (colon after) = none) := by
  constructor
  · intro h
    refine ⟨fun h6 => not_parses_inet6 hl h6 h, ?_⟩
    intro ⟨addr, ha⟩
    by_contra hf
    have hc : chosen after host = .inet6 := if_neg hf
    have hr : ¬ Accepts inet (chosen after host) host := by
      rw [hc]
      intro ⟨addr', h6⟩
      exact hl.exclusive ha h6
    have hec := (h.accepted .inet ⟨addr, ha⟩ _ rfl).1
    rw [(create_invalid os port ep hr).1] at hec
    cases hec
  · intro ⟨h6, h4⟩
    constructor
    · intro af haf r hr
      subst hr
      cases af with
      | inet6 => exact absurd haf h6
      | inet =>
        have hc : chosen after host = .inet := if_pos (h4 haf)
        obtain ⟨addr, ha⟩ := haf
        have hv : inet.pton (chosen after host) (cstr host) = .valid addr := hc ▸ ha
        obtain ⟨hec, hmade⟩ := create_valid os port ep hl hv
        rw [hc] at hmade
        refine ⟨by rw [hec]; rfl, hmade.family_eq, hmade.port_eq, fun other => ?_⟩
        have hagain := again_inet os after other hl ha hmade
        exact ⟨by rw [hagain.family_eq, hmade.family_eq],
          by rw [hagain.address_eq, hmade.address_eq], by rw [hagain.port_eq, hmade.port_eq]⟩
    · intro hnone r hr
      subst hr
      obtain ⟨hec, haf⟩ :=
        create_invalid os port ep (hnone (chosen after host))
      refine ⟨hec, ?_, ?_, ?_⟩
      · rw [Endpoint.host, haf]
      · rw [Endpoint.port, haf]
      · rw [Endpoint.family, haf]

/-! ## 4. The loopback addresses -/

/-- A platform asked about the two loopback addresses only: `127.0.0.1` and `::1`. -/
def loopback : Inet where
  pton
    | .inet, [49, 50, 55, 46, 48, 46, 48, 46, 49] => .valid [127, 0, 0, 1]
    | .inet6, [58, 58, 49] => .valid (List.replicate 15 0 ++ [1])
    | _, _ => .invalid
  ntop
    | .inet, _ => [49, 50, 55, 46, 48, 46, 48, 46, 49]
    | .inet6, _ => [58, 58, 49]

theorem loopback_cases {af : Af} {text addr : List UInt8}
    (h : loopback.pton af text = .valid addr) :
    (af = .inet ∧ text = [49, 50, 55, 46, 48, 46, 48, 46, 49] ∧ addr = [127, 0, 0, 1]) ∨
      (af = .inet6 ∧ text = [58, 58, 49] ∧ addr = List.replicate 15 0 ++ [1]) := by
  unfold loopback at h
  dsimp only at h
  split at h
  · exact Or.inl ⟨rfl, rfl, (Pton.valid.inj h).symm⟩
  · exact Or.inr ⟨rfl, rfl, (Pton.valid.inj h).symm⟩
  · cases h

theorem loopback_lawful : loopback.Lawful where
  size h := by rcases loopback_cases h with ⟨rfl, rfl, rfl⟩ | ⟨rfl, rfl, rfl⟩ <;> rfl
  dotted h := by
    rcases loopback_cases h with ⟨-, rfl, -⟩ | ⟨hf, -, -⟩
    · decide
    · cases hf
  colons h := by
    rcases loopback_cases h with ⟨hf, -, -⟩ | ⟨-, rfl, -⟩
    · cases hf
    · decide
  back h := by rcases loopback_cases h with ⟨rfl, rfl, rfl⟩ | ⟨rfl, rfl, rfl⟩ <;> rfl
  nul h := by rcases loopback_cases h with ⟨rfl, rfl, rfl⟩ | ⟨rfl, rfl, rfl⟩ <;> decide
  fits h := by rcases loopback_cases h with ⟨rfl, rfl, rfl⟩ | ⟨rfl, rfl, rfl⟩ <;> decide

/-- A default constructed endpoint. -/
def Endpoint.empty : Endpoint := ⟨fun _ => 0, 0⟩

/-- `127.0.0.1` is parsed. -/
theorem parses_127_0_0_1 :
    Parses .linux loopback #v[0, 0, 0] [49, 50, 55, 46, 48, 46, 48, 46, 49] 80 .empty := by
  apply (parses_iff loopback_lawful).mpr
  refine ⟨?_, fun _ => by decide⟩
  intro ⟨addr, h⟩
  cases h

/-- `::1` is an IPv6 text, and `create` rejects it. -/
theorem not_parses_colon_colon_1 :
    Accepts loopback .inet6 [58, 58, 49] ∧
      ¬ Parses .linux loopback #v[0, 0, 0] [58, 58, 49] 80 .empty := by
  have h6 : Accepts loopback .inet6 [58, 58, 49] := ⟨_, rfl⟩
  refine ⟨h6, fun h => ?_⟩
  have hec := (h.accepted .inet6 h6 _ rfl).1
  exact absurd hec (by decide)

end Net
end Ice
