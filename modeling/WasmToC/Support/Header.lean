/-!
# The text of the support header

The C header that every emitted unit includes. It is kept as lines, one part at a time.

## Main definitions

* `Support.header` — the whole text.
-/

namespace WasmToC.Support

/-- Includes, constants and the trap function. -/
def preambleLines : List String := [
  "/* Support code for C translated from WebAssembly modules.",
  " *",
  " * Header only: every definition is static, so a program links one",
  " * translated unit against its own copy. Assumes a little-endian host. */",
  "",
  "#ifndef WASM_RT_H",
  "#define WASM_RT_H",
  "",
  "#include <math.h>",
  "#include <stdint.h>",
  "#include <stdio.h>",
  "#include <stdlib.h>",
  "#include <string.h>",
  "",
  "#define WASM_RT_PAGE_SIZE 65536u",
  "#define WASM_RT_MAX_PAGES 65536u",
  "",
  "enum \x7b",
  "  WASM_RT_TRAP_UNREACHABLE = 1,",
  "  WASM_RT_TRAP_OOB,",
  "  WASM_RT_TRAP_INDIRECT_CALL",
  "\x7d;",
  "",
  "static inline void wasm_rt_trap(int code) \x7b",
  "  switch (code) \x7b",
  "    case WASM_RT_TRAP_UNREACHABLE:",
  "      fprintf(stderr, \"wasm trap: unreachable executed\\n\");",
  "      break;",
  "    case WASM_RT_TRAP_OOB:",
  "      fprintf(stderr, \"wasm trap: out of bounds access\\n\");",
  "      break;",
  "    case WASM_RT_TRAP_INDIRECT_CALL:",
  "      fprintf(stderr, \"wasm trap: indirect calls are not supported\\n\");",
  "      break;",
  "    default:",
  "      fprintf(stderr, \"wasm trap: %d\\n\", code);",
  "      break;",
  "  \x7d",
  "  abort();",
  "\x7d",
  "",
  "static const double wasm_rt_nan = NAN;",
  "static const double wasm_rt_infinity = INFINITY;",
  ""]

/-- Linear memory: setup, size, growth and addresses. -/
def memoryLines : List String := [
  "/* Linear memory */",
  "",
  "static uint8_t *wasm_rt_memory_data = NULL;",
  "static uint32_t wasm_rt_memory_pages = 0;",
  "static uint32_t wasm_rt_memory_max_pages = 0;",
  "",
  "/* Relocation base: the module address that maps to the first byte of",
  " * memory. Modules that import `__memory_base` set it during init. */",
  "static uint32_t wasm_rt_memory_base = 0;",
  "",
  "static inline void wasm_rt_memory_init(uint32_t initial, uint32_t maximum) \x7b",
  "  if (maximum > WASM_RT_MAX_PAGES) maximum = WASM_RT_MAX_PAGES;",
  "  if (initial > maximum) wasm_rt_trap(WASM_RT_TRAP_OOB);",
  "  free(wasm_rt_memory_data);",
  "  /* one spare byte keeps calloc from returning NULL for empty memories */",
  "  wasm_rt_memory_data = (uint8_t *)calloc((size_t)initial * WASM_RT_PAGE_SIZE + 1, 1);",
  "  if (!wasm_rt_memory_data) wasm_rt_trap(WASM_RT_TRAP_OOB);",
  "  wasm_rt_memory_pages = initial;",
  "  wasm_rt_memory_max_pages = maximum;",
  "\x7d",
  "",
  "static inline int32_t wasm_rt_memory_size(void) \x7b",
  "  return (int32_t)wasm_rt_memory_pages;",
  "\x7d",
  "",
  "/* Returns the previous size in pages, or -1 when the memory cannot grow. */",
  "static inline int32_t wasm_rt_memory_grow(int32_t delta) \x7b",
  "  uint32_t old_pages = wasm_rt_memory_pages;",
  "  uint64_t new_pages = (uint64_t)old_pages + (uint32_t)delta;",
  "  uint8_t *grown;",
  "  if (delta < 0 || new_pages > wasm_rt_memory_max_pages) return -1;",
  "  if (delta == 0) return (int32_t)old_pages;",
  "  grown = (uint8_t *)realloc(wasm_rt_memory_data, (size_t)new_pages * WASM_RT_PAGE_SIZE + 1);",
  "  if (!grown) return -1;",
  "  memset(grown + (size_t)old_pages * WASM_RT_PAGE_SIZE, 0, (size_t)(new_pages - old_pages) * WASM_RT_PAGE_SIZE);",
  "  wasm_rt_memory_data = grown;",
  "  wasm_rt_memory_pages = (uint32_t)new_pages;",
  "  return (int32_t)old_pages;",
  "\x7d",
  "",
  "static inline uint8_t *wasm_rt_address(uint32_t addr, uint32_t offset, uint32_t size) \x7b",
  "  uint64_t effective = (uint64_t)addr + offset;",
  "  if (effective < wasm_rt_memory_base) wasm_rt_trap(WASM_RT_TRAP_OOB);",
  "  effective -= wasm_rt_memory_base;",
  "  if (effective + size > (uint64_t)wasm_rt_memory_pages * WASM_RT_PAGE_SIZE) \x7b",
  "    wasm_rt_trap(WASM_RT_TRAP_OOB);",
  "  \x7d",
  "  return wasm_rt_memory_data + effective;",
  "\x7d",
  ""]

/-- Loads and stores. -/
def accessesLines : List String := [
  "#define WASM_RT_LOAD(name, result_t, mem_t)                                 \\",
  "  static inline result_t wasm_rt_##name(uint32_t addr, uint32_t offset) \x7b   \\",
  "    mem_t value;                                                            \\",
  "    memcpy(&value, wasm_rt_address(addr, offset, sizeof(mem_t)), sizeof(mem_t)); \\",
  "    return (result_t)value;                                                 \\",
  "  \x7d",
  "",
  "#define WASM_RT_STORE(name, value_t, mem_t)                                 \\",
  "  static inline void wasm_rt_##name(uint32_t addr, uint32_t offset, value_t value) \x7b \\",
  "    mem_t stored = (mem_t)value;                                            \\",
  "    memcpy(wasm_rt_address(addr, offset, sizeof(mem_t)), &stored, sizeof(mem_t)); \\",
  "  \x7d",
  "",
  "WASM_RT_LOAD(i32_load, int32_t, int32_t)",
  "WASM_RT_LOAD(i64_load, int64_t, int64_t)",
  "WASM_RT_LOAD(f32_load, float, float)",
  "WASM_RT_LOAD(f64_load, double, double)",
  "WASM_RT_LOAD(i32_load8_s, int32_t, int8_t)",
  "WASM_RT_LOAD(i32_load8_u, int32_t, uint8_t)",
  "WASM_RT_LOAD(i32_load16_s, int32_t, int16_t)",
  "WASM_RT_LOAD(i32_load16_u, int32_t, uint16_t)",
  "WASM_RT_LOAD(i64_load8_s, int64_t, int8_t)",
  "WASM_RT_LOAD(i64_load8_u, int64_t, uint8_t)",
  "WASM_RT_LOAD(i64_load16_s, int64_t, int16_t)",
  "WASM_RT_LOAD(i64_load16_u, int64_t, uint16_t)",
  "WASM_RT_LOAD(i64_load32_s, int64_t, int32_t)",
  "WASM_RT_LOAD(i64_load32_u, int64_t, uint32_t)",
  "",
  "WASM_RT_STORE(i32_store, int32_t, int32_t)",
  "WASM_RT_STORE(i64_store, int64_t, int64_t)",
  "WASM_RT_STORE(f32_store, float, float)",
  "WASM_RT_STORE(f64_store, double, double)",
  "WASM_RT_STORE(i32_store8, int32_t, uint8_t)",
  "WASM_RT_STORE(i32_store16, int32_t, uint16_t)",
  "WASM_RT_STORE(i64_store8, int64_t, uint8_t)",
  "WASM_RT_STORE(i64_store16, int64_t, uint16_t)",
  "WASM_RT_STORE(i64_store32, int64_t, uint32_t)",
  ""]

/-- Lines for 32 bits, and the same for 64. -/
def bothWidths (lines : String → List String) : List String := lines "32" ++ lines "64"

/-- The C type of floating-point numbers with so many bits. -/
def floatName (n : String) : String := if n = "32" then "float" else "double"

/-- Bit patterns of floating-point numbers. -/
def bitsLines : List String :=
  ["/* Bit patterns */", ""] ++
  bothWidths (fun n => [
    s!"static inline {floatName n} wasm_rt_f{n}_bits(uint{n}_t bits) \x7b",
    s!"  {floatName n} value;",
    "  memcpy(&value, &bits, sizeof(value));",
    "  return value;",
    "\x7d",
    ""]) ++
  bothWidths (fun n => [
    s!"static inline {floatName n} wasm_rt_f{n}_reinterpret_i{n}(int{n}_t value) \x7b",
    s!"  return wasm_rt_f{n}_bits((uint{n}_t)value);",
    "\x7d",
    ""]) ++
  bothWidths fun n => [
    s!"static inline int{n}_t wasm_rt_i{n}_reinterpret_f{n}({floatName n} value) \x7b",
    s!"  uint{n}_t bits;",
    "  memcpy(&bits, &value, sizeof(bits));",
    s!"  return (int{n}_t)bits;",
    "\x7d",
    ""]

/-- A loop that counts its rounds. -/
def countLines (n name : String) (zero : List String) (loop step : String) : List String := [
  s!"static inline int{n}_t wasm_rt_i{n}_{name}(int{n}_t value) \x7b",
  s!"  uint{n}_t x = (uint{n}_t)value;",
  s!"  int{n}_t count = 0;"] ++ zero ++ [
  s!"  while ({loop}) \x7b",
  s!"    {step};",
  "    count++;",
  "  \x7d",
  "  return count;",
  "\x7d",
  ""]

/-- A rotation: a shift by the count, and one by what is left of the width the other way. -/
def rotationLines (n mask name shift back : String) : List String := [
  s!"static inline int{n}_t wasm_rt_i{n}_{name}(int{n}_t value, int{n}_t count) \x7b",
  s!"  uint{n}_t x = (uint{n}_t)value;",
  s!"  uint{n}_t k = (uint{n}_t)count & {mask};",
  s!"  return (int{n}_t)((x {shift} k) | (x {back} (({n}u - k) & {mask})));",
  "\x7d",
  ""]

/-- Integer intrinsics. -/
def integersLines : List String :=
  ["/* Integer intrinsics */", ""] ++ bothWidths fun n =>
    let (top, mask) :=
      if n = "32" then ("0x80000000u", "31u") else ("UINT64_C(0x8000000000000000)", "63u")
    let zero := [s!"  if (x == 0) return {n};"]
    countLines n "clz" zero s!"!(x & {top})" "x <<= 1" ++
    countLines n "ctz" zero "!(x & 1u)" "x >>= 1" ++
    countLines n "popcnt" [] "x" "x &= x - 1" ++
    rotationLines n mask "rotl" "<<" ">>" ++ rotationLines n mask "rotr" ">>" "<<"

/-- A minimum or maximum: which of two zeros it is, and how numbers are compared. -/
def extremumLines (n name zero order : String) : List String :=
  let t := floatName n
  let nan := if n = "32" then "NAN" else "wasm_rt_nan"
  [s!"static inline {t} wasm_rt_f{n}_{name}({t} a, {t} b) \x7b",
   s!"  if (isnan(a) || isnan(b)) return {nan};",
   s!"  if (a == 0 && b == 0) return signbit(a) ? {zero};",
   s!"  return a {order} b ? a : b;",
   "\x7d",
   ""]

/-- Minimum and maximum. -/
def floatsLines : List String :=
  ["/* Float min/max: NaN wins, and -0 orders below +0 */", ""] ++ bothWidths fun n =>
    extremumLines n "min" "a : b" "<" ++ extremumLines n "max" "b : a" ">"

/-- Tables. -/
def tablesLines : List String := [
  "/* Tables */",
  "",
  "typedef void (*wasm_rt_funcref)(void);",
  "",
  "typedef struct \x7b",
  "  wasm_rt_funcref *elements;",
  "  uint32_t size;",
  "\x7d wasm_rt_table;",
  "",
  "/* Copies `count` entries to `offset`, growing the table when needed. */",
  "static inline void wasm_rt_table_init(wasm_rt_table *table, uint32_t offset,",
  "                                      const wasm_rt_funcref *elements, uint32_t count) \x7b",
  "  uint64_t end = (uint64_t)offset + count;",
  "  uint32_t i;",
  "  if (end > UINT32_MAX) wasm_rt_trap(WASM_RT_TRAP_OOB);",
  "  if (end > table->size) \x7b",
  "    wasm_rt_funcref *grown =",
  "        (wasm_rt_funcref *)realloc(table->elements, (size_t)end * sizeof(wasm_rt_funcref));",
  "    if (!grown) wasm_rt_trap(WASM_RT_TRAP_OOB);",
  "    for (i = table->size; i < (uint32_t)end; i++) grown[i] = NULL;",
  "    table->elements = grown;",
  "    table->size = (uint32_t)end;",
  "  \x7d",
  "  for (i = 0; i < count; i++) table->elements[offset + i] = elements[i];",
  "\x7d",
  "",
  "#endif /* WASM_RT_H */"]

/-- The text of the support header. -/
def header : String :=
  String.join ((preambleLines ++ memoryLines ++ accessesLines ++ bitsLines ++ integersLines ++
    floatsLines ++ tablesLines).map fun line => line ++ "\n")

end WasmToC.Support
