import CHeader.Bundled.Types

/- The bundled headers of characters and texts. -/

namespace CHeader

namespace Bundled

def ctypeLines : List String :=
  guarded "CTYPE" (["alnum", "alpha", "blank", "cntrl", "digit", "graph", "lower", "print", "punct",
   "space", "upper", "xdigit"].map (fun name => s!"int is{name}(int);") ++ ["int tolower(int);",
   "int toupper(int);"])

def localeLines : List String :=
  guarded "LOCALE" (["struct lconv \x7b", "\tchar *decimal_point;", "\tchar *thousands_sep;",
   "\tchar *grouping;", "\tchar *int_curr_symbol;", "\tchar *currency_symbol;",
   "\tchar *mon_decimal_point;", "\tchar *mon_thousands_sep;", "\tchar *mon_grouping;",
   "\tchar *positive_sign;", "\tchar *negative_sign;", "\tchar int_frac_digits;",
   "\tchar frac_digits;", "\tchar p_cs_precedes;", "\tchar p_sep_by_space;",
   "\tchar n_cs_precedes;", "\tchar n_sep_by_space;", "\tchar p_sign_posn;", "\tchar n_sign_posn;",
   "\tchar int_p_cs_precedes;", "\tchar int_n_cs_precedes;", "\tchar n_sep_by_space;",
   "\tchar p_sign_posn;", "\tchar n_sign_posn;", "\tchar int_p_cs_precedes;",
   "\tchar int_n_cs_precedes;", "\tchar int_p_sep_by_space;", "\tchar int_n_sep_by_space;",
   "\tchar int_p_sign_posn;", "\tchar int_n_sign_posn;", "\x7d;", "",
   "char* setlocale(int, const char*);", "struct lconv* localeconv(void);", ""] ++ nullLines ++ [""]
   ++ defines ["LC_ALL 0", "LC_COLLATE 1", "LC_CTYPE 2", "LC_MONETARY 3", "LC_NUMERIC 4",
   "LC_TIME 5"])

def stringLines : List String :=
  guarded "STRING" ([""] ++ neededLines [("LONGLONG", "SHORT")] "\t\t|| !defined __CPP_SIZE_BITS" ++
  ["", ""] ++ sizeLines ++ [""] ++ nullLines ++ ["", "void *memchr(const void *, int, size_t);",
   "int memcmp(const void *, const void *, size_t);",
   "void *memcpy(void *restrict s1, const void *restrict s2, size_t n);",
   "void *memmove(void *, const void *, size_t);", "void *memset(void *, int, size_t);", "",
   "char *strcat(char *restrict s1, const char *restrict s2);", "char *strchr(const char *, int);",
   "int strcmp(const char *, const char *);", "int strcoll(const char *, const char *);",
   "char *strcpy(char *restrict s1, const char *restrict s2);",
   "size_t strcspn(const char *, const char *);", "char *strerror(int);",
   "size_t strlen(const char *);",
   "char *strncat(char *restrict s1, const char *restrict s2, size_t n);",
   "int strncmp(const char *, const char *, size_t);",
   "char *strncpy(char *restrict s1, const char *restrict s2, size_t n);",
   "char *strpbrk(const char *, const char *);", "char *strrchr(const char *, int);",
   "size_t strspn(const char *, const char *);", "char *strstr(const char *, const char *);",
   "char *strtok(char *restrict s1, const char *restrict s2);",
   "size_t strxfrm(char *restrict s1, const char *restrict s2, size_t n);", "",
   "#ifdef _POSIX_SOURCE", "#include <locale.h>", "",
   "void *memccpy(void *restrict s1, const void *restrict s2, int, size_t n);",
   "char *stpcpy(char *restrict s1, const char *restrict s2);",
   "char *stpncpy(char *restrict s1, const char *restrict s2, size_t n);",
   "int strcoll_l(const char *, const char *, locale_t);", "", "char *strdup(const char *);", "",
   "char *strerror_l(int, locale_t);", "int strerror_r(int, char *, size_t);", "",
   "char *strndup(const char *, size_t);", "size_t strnlen(const char *, size_t);", "",
   "char *strsignal(int);", "",
   "char *strtok_r(char *restrict s1, const char *restrict s2, char **restrict, end);", "",
   "size_t strxfrm_l(char *restrict s1, const char *restrict s2, size_t n, locale_t l);", "#endif"])

def wcharLines : List String :=
  ["#ifndef _WCHAR_H_", "#define _WCHAR_H_", "/*",
   "*\tImplementation-defined choices: wint_t is unsigned, wchar_t is unsigned,",
   "*\tmbstate_t is an unsigned integer type, */", "// Required macros listed here:"] ++
  neededLines [("LONGLONG", "WINT")]
   "\t\t|| !defined __CPP_WCHAR_BITS || !defined __CPP_SIZE_BITS" ++ [""] ++ wideEndLines ++ [""] ++
  wideCharLines ++ ["", "", "typedef struct mbstate_t mbstate_t;", ""] ++ sizeLines ++ ["",
   "struct tm;", ""] ++ fileLines ++ [""] ++ argumentsLines ++ ["", "",
   "int fwprintf(FILE * restrict stream, const wchar_t * restrict format, ...);",
   "int fwscanf(FILE * restrict stream, const wchar_t * restrict format, ...);",
   "int swprintf(wchar_t * restrict s, size_t n, const wchar_t * restrict format, ...);",
   "int swscanf(const wchar_t * restrict s, const wchar_t * restrict format, ...);",
   "int vfwprintf(FILE * restrict stream, const wchar_t * restrict format, va_list arg);",
   "int vfwscanf(FILE * restrict stream, const wchar_t * restrict format, va_list arg);",
   "int vswprintf(wchar_t * restrict s, size_t n, const wchar_t * restrict format, va_list arg);",
   "int vswscanf(const wchar_t * restrict s, const wchar_t * restrict format, va_list arg);",
   "int vwprintf(const wchar_t * restrict format, va_list arg);",
   "int vwscanf(const wchar_t * restrict format, va_list arg);",
   "int wprintf(const wchar_t * restrict format, ...);",
   "int wscanf(const wchar_t * restrict format, ...);", "wint_t fgetwc(FILE *);",
   "wchar_t *fgetws(wchar_t * restrict s, int n, FILE * restrict stream);",
   "wint_t fputwc(wchar_t, FILE *);",
   "int fputws(const wchar_t * restrict s, FILE * restrict stream);", "int fwide(FILE *, int);",
   "wint_t getwc(FILE *);", "wint_t getwchar(void);", "wint_t putwc(wchar_t, FILE *);",
   "wint_t putwchar(wchar_t);", "wint_t ungetwc(wint_t, FILE *);",
   "double wcstod(const wchar_t * restrict nptr, wchar_t ** restrict endptr);",
   "float wcstof(const wchar_t * restrict nptr, wchar_t ** restrict endptr);",
   "long double wcstold(const wchar_t * restrict nptr, wchar_t ** restrict endptr);",
   "long int wcstol(const wchar_t * restrict nptr, wchar_t ** restrict endptr, int base);",
   "long long int wcstoll(const wchar_t * restrict nptr, wchar_t ** restrict endptr, int base);",
   "unsigned long int wcstoul(const wchar_t * restrict nptr, wchar_t ** restrict endptr, int base);",
   "unsigned long long int wcstoull(const wchar_t * restrict nptr, wchar_t ** restrict endptr, int base);",
   "wchar_t *wcscpy(wchar_t * restrict s1, const wchar_t * restrict s2);",
   "wchar_t *wcsncpy(wchar_t * restrict s1, const wchar_t * restrict s2, size_t n);",
   "wchar_t *wmemcpy(wchar_t * restrict s1, const wchar_t * restrict s2, size_t n);",
   "wchar_t *wmemmove(wchar_t *, const wchar_t *, size_t);",
   "wchar_t *wcscat(wchar_t * restrict s1, const wchar_t * restrict s2);",
   "wchar_t *wcsncat(wchar_t * restrict s1, const wchar_t * restrict s2, size_t n);",
   "int wcscmp(const wchar_t *, const wchar_t *);",
   "int wcscoll(const wchar_t *, const wchar_t *);",
   "int wcsncmp(const wchar_t *, const wchar_t *, size_t);",
   "size_t wcsxfrm(wchar_t * restrict s1, const wchar_t * restrict s2, size_t n);",
   "int wmemcmp(const wchar_t *, const wchar_t *, size_t);",
   "wchar_t *wcschr(const wchar_t *, wchar_t);",
   "size_t wcscspn(const wchar_t *, const wchar_t *);",
   "wchar_t *wcspbrk(const wchar_t *, const wchar_t *);",
   "wchar_t *wcsrchr(const wchar_t *, wchar_t);",
   "size_t wcsspn(const wchar_t *, const wchar_t *);",
   "wchar_t *wcsstr(const wchar_t *, const wchar_t *);",
   "wchar_t *wcstok(wchar_t * restrict s1, const wchar_t * restrict s2, wchar_t ** restrict ptr);",
   "wchar_t *wmemchr(const wchar_t *, wchar_t, size_t);", "size_t wcslen(const wchar_t *);",
   "wchar_t *wmemset(wchar_t *, wchar_t, size_t);",
   "size_t wcsftime(wchar_t * restrict s, size_t maxsize, const wchar_t * restrict format, const struct tm * restrict timeptr);",
   "wint_t btowc(int);", "int wctob(wint_t);", "int mbsinit(const mbstate_t *);",
   "size_t mbrlen(const char * restrict s, size_t n, mbstate_t * restrict ps);",
   "size_t mbrtowc(wchar_t * restrict pwc, const char * restrict s, size_t n, mbstate_t * restrict ps);",
   "size_t wcrtomb(char * restrict s, wchar_t wc, mbstate_t * restrict ps);",
   "size_t mbsrtowcs(wchar_t * restrict dst, const char ** restrict src, size_t len, mbstate_t * restrict ps);",
   "size_t wcsrtombs(char * restrict dst, const wchar_t ** restrict src, size_t len, mbstate_t * restrict ps);",
   "", ""] ++ nullLines ++ ["", "#ifndef WCHAR_MIN", "\t#define WCHAR_MIN 0",
   "\t#define WCHAR_MAX (((1ULL << (__CPP_WCHAR_BITS-2)) - 1) * 4 + 4)", "#endif", "", "", "#endif"]

def wctypeLines : List String :=
  guarded "WCTYPE" (neededLines [("LONGLONG", "SHORT"), ("WCTRANS", "WCTYPE")]
   "\t\t!defined __CPP_WINT_BITS" ++ ["", ""] ++ wideEndLines ++ [""] ++
  typeLines "" "unsigned " "wctrans_t" "WCTRANS" "else" ++ ["", ""] ++
  typeLines "" "unsigned " "wctype_t" "WCTYPE" "else" ++ ["", ""] ++ ["alnum", "alpha", "blank",
   "cntrl"].map (fun name => s!"int isw{name}(wint_t);") ++ ["int iswctype(wint_t, wctype_t);"] ++
  ["digit", "graph", "lower", "print", "punct", "space", "upper",
   "xdigit"].map (fun name => s!"int isw{name}(wint_t);") ++
  ["wint_t towctrans(wint_t, wctrans_t);", "wint_t towlower(wint_t);", "wint_t towupper(wint_t);",
   "", "wctrans_t wctrans (const char*);", "wctype_t wctype (const char*);"])

end Bundled

end CHeader
