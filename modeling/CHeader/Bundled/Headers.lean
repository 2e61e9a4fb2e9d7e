import CHeader.Bundled.Characters
import CHeader.Bundled.Numbers

/- The headers that come with the library, with those of programs and their surroundings. -/

namespace CHeader

namespace Bundled

def assertLines : List String :=
  ["", "#undef assert", "", "#ifndef NDEBUG", "void abort(void);", "int printf(const char *, ...);",
   "", "#define assert(x) \\",
   "((void) ((x) ? 0 : ((void)printf(\"Failed assertion '%s' at line %u of file %s.\\n\", #x, __LINE__, __FILE__), abort() ) ) )",
   "#else", "#define assert(x) (0)", "#endif"]

def setjmpLines : List String :=
  guarded "SETJMP" ["#define setjmp(e)  0", "", "typedef int jmp_buf[48];", "",
   "void longjmp(jmp_buf, int);"]

def signalLines : List String :=
  guarded "SIGNAL" (["/* Implementation detail: sig_atomic_t is signed */", ""] ++
  neededLines [("LONGLONG", "CHAR")]
   "\t\t|| !defined __CPP_SHORT_BITS || !defined __CPP_ATOMIC_BITS" ++ ["",
   "#if __CPP_ATOMIC_BITS == __CPP_CHAR_BITS", "typedef signed char sig_atomic_t;",
   "#elif __CPP_ATOMIC_BITS == __CPP_INT_BITS", "typedef int sig_atomic_t;",
   "#elif __CPP_ATOMIC_BITS == __CPP_LONG_BITS", "typedef long sig_atomic_t;",
   "#elif __CPP_ATOMIC_BITS == __CPP_SHORT_BITS", "typedef short sig_atomic_t;",
   "#elif __CPP_ATOMIC_BITS == __CPP_LONGLONG_BITS", "typedef long long sig_atomic_t;", "#else",
   "#error Invalid size for sig_atomic_t", "#endif", "", "void (*signal(int, void (*)(int)))(int);",
   "int raise(int);", ""] ++ defines ["SIGABRT 0", "SIGFPE 1", "SIGILL 2", "SIGINT 3", "SIGSEGV 4",
   "SIGTERM 5", "SIG_DFL (void (*)(int))0", "SIG_IGN (void (*)(int))0", "SIG_ERR (void (*)(int))0"])

def stdargLines : List String :=
  guarded "STDARG" (defines ["va_start(x,y)", "va_arg(x,y) *(y *)(x)", "va_end(x)",
   "va_copy(x,y) memcpy(x,y,1)"] ++ [""] ++ argumentsLines)

def stdioLines : List String :=
  guarded "STDIO" (neededLines [("LONGLONG", "SHORT")] "\t\t!defined __CPP_SIZE_BITS" ++ ["", ""] ++
  fileLines ++ [""] ++ sizeLines ++ ["", "typedef struct fpos_t fpos_t;", ""] ++ argumentsLines ++
  ["", "", "#define stdin stdin;", "#define stdout stdout;", "#define stderr stderr;", "",
   "void clearerr(FILE *);", "int fclose(FILE *);", "int feof(FILE *);", "int ferror(FILE *);",
   "int fflush(FILE *);", "int fgetc(FILE *);", "int fgetpos(FILE *, fpos_t *);",
   "char *fgets(char *restrict s, int count, FILE *restrict stream);",
   "FILE *fopen(const char *, const char *);", "int fprintf(FILE *, const char *, ...);",
   "int fputc(int, FILE *);", "int fputs(const char *, FILE *);",
   "size_t fread(void *, size_t, size_t, FILE *);",
   "FILE *freopen(const char *, const char *, FILE *);", "int fscanf(FILE *, const char *, ...);",
   "int fseek(FILE *, long int, int);", "int fsetpos(FILE *, const fpos_t *);",
   "long int ftell(FILE *);", "size_t fwrite(const void *, size_t, size_t, FILE *);",
   "int getc(FILE *);", "int getchar(void);", "char *gets(char *);", "void perror(const char *);",
   "int printf(const char *, ...);", "int putc(int, FILE *);", "int putchar(int);",
   "int puts(const char *);", "int remove(const char *);",
   "int rename(const char *, const char *);", "void rewind(FILE *);",
   "int scanf(const char *, ...);", "void setbuf(FILE *, char *);",
   "int setvbuf(FILE *, char *, int, size_t);", "int snprintf(char *, size_t, const char *, ...);",
   "int sprintf(char *, const char *, ...);", "int sscanf(const char *, const char *, ...);",
   "FILE *tmpfile(void);", "char *tmpnam(char *);", "int ungetc(int, FILE *);",
   "int vfprintf(FILE *, const char *, va_list);", "int vprintf(const char *, va_list);",
   "int vsnprintf(char *, size_t, const char *, va_list);",
   "int vsprintf(char *, const char *, va_list);",
   "int vfscanf(FILE *restrict stream, const char *restrict format, va_list arg);",
   "int vscanf(const char *restrict, va_list);",
   "int vsscanf(const char *restrict s, const char *restrict format, va_list arg);", "",
   "#ifdef _POSIX_SOURCE", "char *ctermid(char *);", "FILE *fdopen(int, const char *);",
   "int fileno(FILE *);", "void flockfile(FILE *);", "int ftrylockfile(FILE *);",
   "void funlockfile(FILE *);", "int getc_unlocked(FILE *);", "int getchar_unlocked(void);",
   "int getw(FILE *);", "int pclose(FILE *);", "FILE *popen(const char *, const char *);",
   "int putc_unlocked(int, FILE *);", "int putchar_unlocked(int);", "int putw(int, FILE *);",
   "char *tempnam(const char *, const char *);", "#endif", "", ""] ++ defines ["BUFSIZ 1024",
   "EOF (-1)", "FILENAME_MAX 1024", "FOPEN_MAX 16", "L_tmpname 1024"] ++ [""] ++ nullLines ++ [""]
   ++ defines ["TMP_MAX 16384", "_IOFBF 0", "_IOLBF 1", "_IONBF 2", "SEEK_SET 0", "SEEK_CUR 1",
   "SEEK_END 2"])

def stdlibLines : List String :=
  guarded "STDLIB" (neededLines [("LONGLONG", "SHORT")]
   "\t\t|| !defined __CPP_SIZE_BITS || !defined __CPP_WCHAR_BITS" ++ ["", "",
   "/* The order of quot and rem are not specified by the standard */", "typedef struct \x7b",
   "\tint quot;", "\tint rem;", "\x7d div_t;", "", "typedef struct \x7b", "\tlong quot;",
   "\tlong rem;", "\x7d ldiv_t;", "", "typedef struct \x7b", "\tlong long quot;",
   "\tlong long rem;", "\x7d lldiv_t;", "", ""] ++ sizeLines ++ [""] ++ wideCharLines ++ ["", "",
   "", "void abort(void);", "int abs(int);", "int atexit(void (*)(void));",
   "int at_quick_exit(void (*)(void));", "double atof(const char *);", "int atoi(const char *);",
   "long int atol(const char *);", "long long int atoll(const char *);",
   "void *bsearch(const void *, const void *, size_t, size_t, int (*)(const void *, const void *));",
   "void *calloc(size_t, size_t);", "div_t div(int, int);", "void exit(int);", "void free(void *);",
   "char *getenv(const char *);", "long int labs(long int);",
   "long long int llabs (long long int);", "ldiv_t ldiv(long int, long int);",
   "lldiv_t lldiv (long long int, long long int);", "void *malloc(size_t);",
   "int mblen(const char *, size_t);", "size_t mbstowcs(wchar_t *, const char *, size_t);",
   "int mbtowc(wchar_t *, const char *, size_t);",
   "void qsort(void *, size_t, size_t, int (*)(const void *, const void *));",
   "void quick_exit(int);", "int rand(void);", "void *realloc(void *, size_t);",
   "void srand(unsigned int);", "double strtod(const char *, char **);",
   "float strtof(const char *, char **);", "long int strtol(const char *, char **, int);",
   "long double strtold(const char *, char **);",
   "long long int strtoll(const char *, char **, int);",
   "unsigned long int strtoul(const char *, char **, int);",
   "unsigned long long int strtoull(const char *, char **, int);", "int system(const char *);",
   "size_t wcstombs(char *, const wchar_t *, size_t);", "int wctomb(char *, wchar_t);",
   "void _Exit(int);", "", "#ifdef _POSIX_SOURCE", "long a64l(const char *);",
   "double drand48(void);", "char *ecvt(double, int, int *, int *);",
   "double erand48(unsigned short int[3]);", "char *fcvt (double, int, int *, int *);",
   "char *gcvt(double, int, char *);", "int getsubopt(char **, char *const *, char **);",
   "int grantpt(int);", "char *initstate(unsigned int, char *, size_t);",
   "long int jrand48(unsigned short int[3]);", "char *l64a(long);",
   "void lcong48(unsigned short int[7]);", "long int lrand48(void);", "char *mktemp(char *);",
   "int mkstemp(char *);", "long int mrand48(void);", "long int nrand48(unsigned short int [3]);",
   "char *ptsname(int);", "int putenv(char *);", "int rand_r(unsigned int *);",
   "long random(void);", "char *realpath(const char *, char *);",
   "unsigned short int seed48(unsigned short int[3]);", "void setkey(const char *);",
   "char *setstate(const char *);", "void srand48(long int);", "void srandom(unsigned);",
   "int unlockpt(int);", "#endif", "", "", "// Macros are possibly wrong",
   "#define EXIT_FAILURE (-1)", "#define EXIT_SUCCESS 0", "#define MB_CUR_MAX 6", ""] ++
  nullLines ++ ["", "#define RAND_MAX (((1 << (__CPP_INT_BITS-2)) - 1) * 2 + 1)"])

def timeLines : List String :=
  guarded "TIME" (neededLines [("LONGLONG", "SHORT"), ("CLOCK", "SIZE")]
   "\t\t|| !defined __CPP_TIME_BITS" ++ ["", ""] ++
  typeLines "" "unsigned " "clock_t" "CLOCK" "elif __CPP_CLOCK_BITS >= 0" ++ [""] ++
  typeLines "" "unsigned " "time_t" "TIME" "elif __CPP_TIME_BITS >= 0" ++ [""] ++ sizeLines ++ ["",
   "struct tm \x7b", "\tint tm_sec;", "\tint tm_min;", "\tint tm_hour;", "\tint tm_mday;",
   "\tint tm_mon;", "\tint tm_year;", "\tint tm_wday;", "\tint tm_yday;", "\tint tm_isdst;",
   "\x7d;", "", "clock_t clock(void);", "double difftime(time_t, time_t);",
   "time_t mktime(struct tm *);", "time_t time(time_t *);", "char *asctime(const struct tm *);",
   "char *ctime(const time_t *);", "struct tm *gmtime(const time_t *);",
   "struct tm *localtime(const time_t *);",
   "size_t strftime(char *restrict s, size_t maxsize, const char *restrict format, const struct tm *restrict timeptr);",
   "\t\t\t\t\t ", "#define CLOCKS_PER_SEC 1000000", ""] ++ nullLines)

def textOfLines (lines : List String) : String :=
  lines.foldl (fun text line => text ++ line ++ "\n") ""

def headers : List (String × String) :=
  [("assert.h", assertLines), ("complex.h", complexLines), ("ctype.h", ctypeLines),
   ("fenv.h", fenvLines), ("float.h", floatLines), ("iso646.h", iso646Lines),
   ("limits.h", limitsLines), ("locale.h", localeLines), ("math.h", mathLines),
   ("setjmp.h", setjmpLines), ("signal.h", signalLines), ("stdarg.h", stdargLines),
   ("stdbool.h", stdboolLines), ("stddef.h", stddefLines), ("stdint.h", stdintLines),
   ("stdio.h", stdioLines), ("stdlib.h", stdlibLines), ("string.h", stringLines),
   ("time.h", timeLines), ("wchar.h", wcharLines), ("wctype.h", wctypeLines)].map
    fun (name, lines) => (name, textOfLines lines)

end Bundled

end CHeader
