import Mathlib

/-!
# SimpleFS: constants and error codes

The format constants of `simplefs.h`. Sizes that the header computes with
`sizeof` are computed here from the same field widths.
-/

namespace SimpleFs

/-- The error codes the modelled functions return, without their sign. -/
inductive Errno where
  | eio | enomem | enospc | einval | eagain | erofs | euclean | enoent | eexist
  | eacces | enotempty | enotdir | eisdir | enametoolong | enodata | erange | efbig | eopnotsupp
  | eperm | e2big | efscorrupted
  deriving DecidableEq, Repr

/-- The answer of a lower layer at one call site: `none` is success. -/
abbrev Fault := Option Errno

def blockSize : Nat := 1 <<< 12

/-- An extent is three 32-bit words, and a leaf header is eight bytes. -/
def fileExtentsPerLeaf : Nat := (blockSize - 8) / 12

/-- An index entry is four 32-bit words, and the root header is eight bytes. -/
def fileIndexSlots : Nat := (blockSize - 8) / 16

def maxBlocksPerExtent : Nat := 8192

def maxFileExtents : Nat := fileExtentsPerLeaf * fileIndexSlots

def maxFilesize : Nat := maxBlocksPerExtent * blockSize * maxFileExtents

/-- An on-disk inode is eighteen 32-bit words and thirty-two bytes of data. -/
def inodesPerBlock : Nat := blockSize / (18 * 4 + 32)

example : fileExtentsPerLeaf = 340 ∧ fileIndexSlots = 255 ∧ maxFileExtents = 86700 ∧
    inodesPerBlock = 39 := by decide

/-- `struct simplefs_file`: a directory slot, with its name field as bytes. -/
structure FileSlot where
  inode : Nat
  filename : List UInt8
  deriving DecidableEq, Repr

end SimpleFs
