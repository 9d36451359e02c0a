namespace Chip8

structure Dialect where
  /-- 8XY6 and 8XYE shift VY into VX, rather than VX in place. -/
  shiftReadsY : Bool := false
  /-- BNNN adds V0 to its address, rather than VX. -/
  jumpAddsV0 : Bool := false
  /-- FX55 and FX65 step I before each byte that they move, and leave it there. -/
  transferMovesIndex : Bool := false
  /-- DXYN continues sprites at the opposite edge, rather than cutting them off. -/
  spritesWrap : Bool := true
  deriving DecidableEq, Repr

instance : Inhabited Dialect := ⟨{}⟩

end Chip8
