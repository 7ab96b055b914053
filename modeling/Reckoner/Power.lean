/-! Powers with a natural exponent, which are the same in every module, whatever other powers it
can see. -/
namespace Reckoner

@[default_instance 20000]
instance (priority := 20000) powNat {α : Type} [NatPow α] : Pow α Nat := instPowNat

end Reckoner
