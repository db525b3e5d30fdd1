import Mathlib.Data.List.Basic
import ProtocolGateway.Lib.Trim

/-!
# Physical endpoints and the client cache

Every Modbus transport class keeps its client in the class-level dictionary `modbus_base.clients`,
so that transports on one host and port, or one serial port, share it. The constructors fill the
dictionary under one name of the endpoint, `client_str`; `cleanup` and the port locks use another,
`_get_port_identifier`. The two names never agree (`clientStr_ne_portIdentifier`), so `cleanup`
finds nothing to evict; transports with one client do have one endpoint
(`eq_of_clientStr_eq`), and so share their port lock.
-/

namespace ProtocolGateway

/-- What a transport talks to. -/
inductive Endpoint
  /-- `modbus_tcp` -/
  | tcp (host : String) (port : Nat)
  /-- `modbus_rtu` -/
  | rtu (port : String) (baudrate : Nat)
  /-- a transport without a cached Modbus client: a bridge, or another family -/
  | other (name : String)
  deriving DecidableEq, Repr

namespace Endpoint

/-- `client_str`: the key under which the constructor caches the client. -/
def clientStr : Endpoint → Option String
  | tcp host port => some (host ++ "-tcp-" ++ port.repr)
  | rtu port baudrate => some (port ++ "(" ++ baudrate.repr ++ ")")
  | other _ => none

/-- `_get_port_identifier`. -/
def portIdentifier : Endpoint → String
  | tcp host port => host ++ "_" ++ port.repr
  | rtu port baudrate => if 0 < baudrate then port ++ "_" ++ baudrate.repr else port
  | other name => name

/-- The configured endpoint is one the constructors accept and a port can run at: a Modbus serial
port has a baud rate. -/
def Valid : Endpoint → Prop
  | tcp _ _ => True
  | rtu _ baudrate => 0 < baudrate
  | other _ => False

/-- The digits at the end of a text end at the same character whichever way it is split. -/
theorem last_before_digits {xs ys ds es : List Char} {c d : Char}
    (hds : ∀ x ∈ ds, x.isDigit = true) (hes : ∀ x ∈ es, x.isDigit = true)
    (hc : c.isDigit = false) (hd : d.isDigit = false) (h : xs ++ c :: ds = ys ++ d :: es) :
    c = d ∧ xs = ys ∧ ds = es :=
  Trim.append_cons_inj hds hes hc hd h

theorem isDigit_repr {n : Nat} : ∀ c ∈ n.repr.toList, c.isDigit = true := by
  intro c hc
  rw [Nat.toList_repr] at hc
  exact Nat.isDigit_of_mem_toDigits (by decide) (by decide) hc

theorem repr_inj {m n : Nat} (h : m.repr.toList = n.repr.toList) : m = n := by
  rw [Nat.toList_repr, Nat.toList_repr] at h
  rw [← Nat.ofDigitChars_ten_toDigits (n := m), h, Nat.ofDigitChars_ten_toDigits]

/-- The characters of a TCP cache key. -/
theorem toList_clientStr_tcp {host : String} {port : Nat} {key : String}
    (h : (tcp host port).clientStr = some key) :
    key.toList = (host.toList ++ "-tcp".toList) ++ '-' :: port.repr.toList := by
  injection h with h
  rw [← h]
  simp

/-- The characters of a serial cache key. -/
theorem toList_clientStr_rtu {port : String} {baudrate : Nat} {key : String}
    (h : (rtu port baudrate).clientStr = some key) :
    key.toList = (port.toList ++ '(' :: baudrate.repr.toList) ++ ')' :: [] := by
  injection h with h
  rw [← h]
  simp

/-- Transports with one cached client have one endpoint. -/
theorem eq_of_clientStr_eq {e e' : Endpoint} {key : String} (h : e.clientStr = some key)
    (h' : e'.clientStr = some key) : e = e' := by
  cases e with
  | tcp host port =>
    cases e' with
    | tcp host' port' =>
      have hkey := (toList_clientStr_tcp h).symm.trans (toList_clientStr_tcp h')
      obtain ⟨-, hhost, hport⟩ :=
        last_before_digits isDigit_repr isDigit_repr (by decide) (by decide) hkey
      rw [String.toList_inj.mp (List.append_cancel_right hhost), repr_inj hport]
    | rtu port' baudrate' =>
      have hkey := (toList_clientStr_tcp h).symm.trans (toList_clientStr_rtu h')
      exact absurd (last_before_digits isDigit_repr (by simp) (by decide) (by decide) hkey).1
        (by decide)
    | other name => exact absurd h' (by simp [clientStr])
  | rtu port baudrate =>
    cases e' with
    | tcp host' port' =>
      have hkey := (toList_clientStr_rtu h).symm.trans (toList_clientStr_tcp h')
      exact absurd (last_before_digits (by simp) isDigit_repr (by decide) (by decide) hkey).1
        (by decide)
    | rtu port' baudrate' =>
      have hkey := (toList_clientStr_rtu h).symm.trans (toList_clientStr_rtu h')
      obtain ⟨-, hhead, -⟩ :=
        last_before_digits (by simp) (by simp) (by decide) (by decide) hkey
      obtain ⟨-, hport, hbaud⟩ :=
        last_before_digits isDigit_repr isDigit_repr (by decide) (by decide) hhead
      rw [String.toList_inj.mp hport, repr_inj hbaud]
    | other name => exact absurd h' (by simp [clientStr])
  | other name => exact absurd h (by simp [clientStr])

/-- **The cache keys never agree.** No client is cached under the port identifier of a Modbus
endpoint. -/
theorem clientStr_ne_portIdentifier {e e' : Endpoint} {key : String} (he : e.clientStr = some key)
    (hv : e'.Valid) : key ≠ e'.portIdentifier := by
  intro h
  obtain ⟨xs, n, hident⟩ : ∃ (xs : List Char) (n : Nat),
      e'.portIdentifier.toList = xs ++ '_' :: n.repr.toList := by
    cases e' with
    | tcp host port => exact ⟨host.toList, port, by simp [portIdentifier]⟩
    | rtu port baudrate =>
      exact ⟨port.toList, baudrate, by
        rw [portIdentifier, if_pos (show 0 < baudrate from hv)]
        simp⟩
    | other name => exact absurd hv id
  cases e with
  | tcp host port =>
    have hkey := toList_clientStr_tcp he
    rw [h, hident] at hkey
    exact absurd (last_before_digits isDigit_repr isDigit_repr (by decide) (by decide) hkey).1
      (by decide)
  | rtu port baudrate =>
    have hkey := toList_clientStr_rtu he
    rw [h, hident] at hkey
    exact absurd (last_before_digits isDigit_repr (by simp) (by decide) (by decide) hkey).1
      (by decide)
  | other name => exact absurd he (by simp [clientStr])

end Endpoint

end ProtocolGateway
